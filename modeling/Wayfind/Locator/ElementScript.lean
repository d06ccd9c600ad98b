/-
The page functions by which a locator looks at an element and changes it.

Each takes the element as its first parameter.  A page that is only simulated knows
them by their text.
-/
import Wayfind.Query.Scripts

namespace Wayfind.ElementScript

open Query

/-- The element keeps its place over two frames. -/
def isStable : String := Script.ofLines [
  "element => new Promise(resolve => \x7b",
  "  window.requestAnimationFrame(() => \x7b",
  "    const first = element.getBoundingClientRect();",
  "    window.requestAnimationFrame(() => \x7b",
  "      const second = element.getBoundingClientRect();",
  "      resolve(first.x === second.x && first.y === second.y",
  "        && first.width === second.width && first.height === second.height);",
  "    \x7d);",
  "  \x7d);",
  "\x7d)"]

/-- The element is disabled. -/
def isDisabled : String :=
  "element => typeof element.disabled === 'boolean' && element.disabled === true"

/-- The name of the element's `FillKind`. -/
def fillKind : String := Script.ofLines [
  "element => \x7b",
  "  if (element instanceof HTMLSelectElement) \x7b",
  "    return 'select';",
  "  \x7d",
  "  if (element instanceof HTMLTextAreaElement) \x7b",
  "    return 'typeable-input';",
  "  \x7d",
  "  if (element instanceof HTMLInputElement) \x7b",
  "    const typeable = ['textarea', 'text', 'url', 'tel', 'search', 'password', 'number', 'email'];",
  "    return typeable.includes(element.type) ? 'typeable-input' : 'other-input';",
  "  \x7d",
  "  if (element.isContentEditable) \x7b",
  "    return 'contenteditable';",
  "  \x7d",
  "  return 'unknown';",
  "\x7d"]

/-- The text in the element. -/
def text : String :=
  "element => element.isContentEditable ? element.innerText : element.value"

/-- Empties the element. -/
def clear : String := Script.ofLines [
  "element => \x7b",
  "  if (element.isContentEditable) \x7b",
  "    element.innerText = '';",
  "  \x7d else \x7b",
  "    element.value = '';",
  "  \x7d",
  "\x7d"]

/-- Sets the value of the element. -/
def assign : String := Script.ofLines [
  "(element, value) => \x7b",
  "  element.value = value;",
  "  element.dispatchEvent(new Event('input', \x7b bubbles: true \x7d));",
  "  element.dispatchEvent(new Event('change', \x7b bubbles: true \x7d));",
  "\x7d"]

/-- Scrolls inside the element. -/
def scroll : String := Script.ofLines [
  "(element, top, left) => \x7b",
  "  if (top !== null && top !== undefined) \x7b",
  "    element.scrollTop = top;",
  "  \x7d",
  "  if (left !== null && left !== undefined) \x7b",
  "    element.scrollLeft = left;",
  "  \x7d",
  "\x7d"]

end Wayfind.ElementScript
