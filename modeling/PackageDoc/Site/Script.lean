/-
  The script of the pages: the search box.
-/
namespace PackageDoc.Site

/-- The lines of the script. -/
def scriptLines : List String := [
  "(function () \x7b",
  "    'use strict';",
  "",
  "    const modal = document.getElementById('modal');",
  "    const input = document.getElementById('search-input');",
  "    const listWrap = document.getElementById('list-wrap');",
  "    const button = document.getElementById('search-button');",
  "",
  "    if (!modal || !input || !listWrap) \x7b",
  "        return;",
  "    \x7d",
  "",
  "    let active = -1;",
  "",
  "    function items() \x7b",
  "        return Array.from(listWrap.children);",
  "    \x7d",
  "",
  "    function visibleItems() \x7b",
  "        return items().filter((item) => !item.classList.contains('invisible-item'));",
  "    \x7d",
  "",
  "    function isOpen() \x7b",
  "        return !modal.classList.contains('invisible-item');",
  "    \x7d",
  "",
  "    function setActive(index) \x7b",
  "        const list = visibleItems();",
  "        items().forEach((item) => item.classList.remove('active-item'));",
  "",
  "        if (index < 0 || index >= list.length) \x7b",
  "            active = -1;",
  "            return;",
  "        \x7d",
  "",
  "        active = index;",
  "        const item = list[index];",
  "        item.classList.add('active-item');",
  "",
  "        const box = listWrap.getBoundingClientRect();",
  "        const rect = item.getBoundingClientRect();",
  "        if (rect.bottom > box.bottom) \x7b",
  "            item.scrollIntoView(false);",
  "        \x7d else if (rect.top < box.top) \x7b",
  "            item.scrollIntoView();",
  "        \x7d",
  "    \x7d",
  "",
  "    function filter() \x7b",
  "        const query = input.value.toUpperCase();",
  "        items().forEach((item) => \x7b",
  "            const match = item.textContent.toUpperCase().indexOf(query) > -1;",
  "            item.classList.toggle('invisible-item', !match);",
  "        \x7d);",
  "        setActive(-1);",
  "    \x7d",
  "",
  "    function open() \x7b",
  "        modal.classList.remove('invisible-item');",
  "        input.value = '';",
  "        filter();",
  "        input.focus();",
  "    \x7d",
  "",
  "    function close() \x7b",
  "        modal.classList.add('invisible-item');",
  "    \x7d",
  "",
  "    function toggle() \x7b",
  "        if (isOpen()) \x7b",
  "            close();",
  "        \x7d else \x7b",
  "            open();",
  "        \x7d",
  "    \x7d",
  "",
  "    document.addEventListener('keydown', (e) => \x7b",
  "        const plain = !(e.ctrlKey || e.altKey || e.shiftKey || e.metaKey);",
  "",
  "        if (!isOpen()) \x7b",
  "            if (e.key === 'f' && plain) \x7b",
  "                open();",
  "                e.preventDefault();",
  "            \x7d",
  "            return;",
  "        \x7d",
  "",
  "        switch (e.key) \x7b",
  "            case 'Escape':",
  "                close();",
  "                break;",
  "            case 'ArrowDown':",
  "                setActive(active + 1);",
  "                e.preventDefault();",
  "                break;",
  "            case 'ArrowUp':",
  "                setActive(active - 1);",
  "                e.preventDefault();",
  "                break;",
  "            case 'Enter': \x7b",
  "                const item = visibleItems()[active];",
  "                if (item) \x7b",
  "                    location.hash = item.getAttribute('href');",
  "                    close();",
  "                \x7d",
  "                break;",
  "            \x7d",
  "        \x7d",
  "    \x7d);",
  "",
  "    input.addEventListener('keyup', (e) => \x7b",
  "        if (e.key !== 'ArrowDown' && e.key !== 'ArrowUp' && e.key !== 'Enter') \x7b",
  "            filter();",
  "        \x7d",
  "    \x7d);",
  "",
  "    items().forEach((item) => item.addEventListener('click', close));",
  "",
  "    modal.addEventListener('click', (e) => \x7b",
  "        if (e.target === modal) \x7b",
  "            close();",
  "        \x7d",
  "    \x7d);",
  "",
  "    if (button) \x7b",
  "        button.addEventListener('click', toggle);",
  "    \x7d",
  "\x7d)();"]

/-- The script of the pages. -/
def script : String := String.join (scriptLines.map (· ++ "\n"))

end PackageDoc.Site
