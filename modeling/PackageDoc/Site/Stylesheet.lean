/-
  The stylesheet of the pages.
-/
namespace PackageDoc.Site

/-- A rule of a stylesheet: the elements that it selects and their properties. -/
structure StyleRule where
  selectors : List String
  properties : List (String × String)

/-- The text of a rule. -/
def StyleRule.text (r : StyleRule) : String :=
  String.intercalate ",\n" r.selectors ++ " \x7b\n" ++
    String.join (r.properties.map fun (name, value) => "    " ++ name ++ ": " ++ value ++ ";\n") ++
    "\x7d\n"

/-- The rules of the pages. -/
def styleRules : List StyleRule := [
  ⟨[":root"],
    [("--fg", "#1f2328"), ("--muted", "#59636e"), ("--bg", "#ffffff"), ("--panel", "#f6f8fa"),
     ("--border", "#d1d9e0"), ("--accent", "#0969da"),
     ("--mono", "ui-monospace, SFMono-Regular, Menlo, Consolas, monospace")]⟩,
  ⟨["*"],
    [("box-sizing", "border-box")]⟩,
  ⟨["body"],
    [("margin", "0"), ("display", "flex"), ("min-height", "100vh"), ("color", "var(--fg)"),
     ("background", "var(--bg)"),
     ("font-family", "system-ui, -apple-system, \"Segoe UI\", Roboto, sans-serif"),
     ("line-height", "1.5")]⟩,
  ⟨["a"],
    [("color", "var(--accent)"), ("text-decoration", "none")]⟩,
  ⟨["a:hover"],
    [("text-decoration", "underline")]⟩,
  ⟨[".sidebar"],
    [("flex", "0 0 16rem"), ("padding", "1rem"), ("border-right", "1px solid var(--border)"),
     ("background", "var(--panel)"), ("position", "sticky"), ("top", "0"), ("height", "100vh"),
     ("overflow-y", "auto")]⟩,
  ⟨[".sidebar h2"],
    [("margin-top", "0"), ("font-size", "1.1rem")]⟩,
  ⟨["#search-button"],
    [("width", "100%"), ("margin-bottom", "1rem"), ("padding", "0.4rem 0.6rem"),
     ("text-align", "left"), ("color", "var(--muted)"), ("background", "var(--bg)"),
     ("border", "1px solid var(--border)"), ("border-radius", "6px"), ("cursor", "pointer")]⟩,
  ⟨["kbd"],
    [("float", "right"), ("padding", "0 0.3rem"), ("font-family", "var(--mono)"),
     ("border", "1px solid var(--border)"), ("border-radius", "4px")]⟩,
  ⟨[".package-list"],
    [("list-style", "none"), ("margin", "0"), ("padding", "0")]⟩,
  ⟨[".package-list li"],
    [("padding", "0.15rem 0")]⟩,
  ⟨[".package-list a.current"],
    [("font-weight", "600"), ("color", "var(--fg)")]⟩,
  ⟨[".content"],
    [("flex", "1"), ("max-width", "60rem"), ("padding", "1rem 2rem 4rem")]⟩,
  ⟨["section h2"],
    [("margin-top", "2.5rem"), ("padding-bottom", "0.3rem"),
     ("border-bottom", "1px solid var(--border)")]⟩,
  ⟨[".decl"],
    [("margin", "1.5rem 0")]⟩,
  ⟨[".decl h3"],
    [("margin-bottom", "0.4rem"), ("font-family", "var(--mono)"), ("font-size", "1rem")]⟩,
  ⟨[".decl-kind"],
    [("margin-right", "0.2rem"), ("padding", "0 0.35rem"), ("font-size", "0.75rem"),
     ("font-weight", "normal"), ("color", "var(--muted)"), ("border", "1px solid var(--border)"),
     ("border-radius", "4px")]⟩,
  ⟨["pre"],
    [("padding", "0.75rem"), ("overflow-x", "auto"), ("font-family", "var(--mono)"),
     ("font-size", "0.875rem"), ("background", "var(--panel)"), ("border-radius", "6px")]⟩,
  ⟨["pre.listing"],
    [("border-left", "3px solid var(--accent)")]⟩,
  ⟨[".doc p"],
    [("margin", "0.5rem 0"), ("white-space", "pre-line")]⟩,
  ⟨[".modal"],
    [("position", "fixed"), ("inset", "0"), ("z-index", "10"), ("display", "flex"),
     ("justify-content", "center"), ("align-items", "flex-start"), ("padding-top", "10vh"),
     ("background", "rgba(0, 0, 0, 0.35)")]⟩,
  ⟨[".search-box"],
    [("width", "min(40rem, 90vw)"), ("background", "var(--bg)"), ("border-radius", "8px"),
     ("box-shadow", "0 8px 24px rgba(0, 0, 0, 0.2)")]⟩,
  ⟨["#search-input"],
    [("width", "100%"), ("padding", "0.75rem 1rem"), ("font-size", "1rem"), ("border", "none"),
     ("border-bottom", "1px solid var(--border)"), ("border-radius", "8px 8px 0 0"),
     ("outline", "none")]⟩,
  ⟨[".list-wrap"],
    [("max-height", "60vh"), ("overflow-y", "auto")]⟩,
  ⟨[".list-wrap a"],
    [("display", "block"), ("padding", "0.4rem 1rem"), ("font-family", "var(--mono)"),
     ("color", "var(--fg)")]⟩,
  ⟨[".list-wrap a.active-item", ".list-wrap a:hover"],
    [("background", "var(--panel)"), ("text-decoration", "none")]⟩,
  ⟨[".invisible-item"],
    [("display", "none !important")]⟩]

/-- The stylesheet: its rules, with blank lines between them. -/
def stylesheet : String := String.intercalate "\n" (styleRules.map StyleRule.text)

end PackageDoc.Site
