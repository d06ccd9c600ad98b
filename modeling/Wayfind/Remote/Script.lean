/-
The page functions by which handles and bindings do their work in the page.
-/
import Wayfind.Query.Scripts

namespace Wayfind.Remote.Script

open Query

/-- Gives its argument back, as a document. -/
def identity : String := "(value) => value"

/-- The place and the size of an element in the viewport. -/
def clientRect : String := Script.ofLines [
  "(element) => \x7b",
  "  const rect = element.getBoundingClientRect();",
  "  return \x7bx: rect.x, y: rect.y, width: rect.width, height: rect.height\x7d;",
  "\x7d"]

/-- Gives an element the focus. -/
def focus : String := "(element) => element.focus()"

/-- Brings an element into the middle of the viewport. -/
def scrollIntoView : String := Script.ofLines [
  "(element) => \x7b",
  "  element.scrollIntoView(\x7bblock: 'center', inline: 'center', behavior: 'instant'\x7d);",
  "\x7d"]

/-- More than such a part of an element is in the viewport, or all of it when the part is one. -/
def isIntersecting : String := Script.ofLines [
  "async (element, threshold) => \x7b",
  "  const visibleRatio = await new Promise(resolve => \x7b",
  "    const observer = new IntersectionObserver(entries => \x7b",
  "      resolve(entries[0].intersectionRatio);",
  "      observer.disconnect();",
  "    \x7d);",
  "    observer.observe(element);",
  "  \x7d);",
  "  return threshold === 1 ? visibleRatio === 1 : visibleRatio > threshold;",
  "\x7d"]

/-- Selects the options with given values, and gives the values of those selected. -/
def select : String := Script.ofLines [
  "(element, vals) => \x7b",
  "  const values = new Set(vals);",
  "  if (!(element instanceof HTMLSelectElement)) \x7b",
  "    throw new Error('Element is not a <select> element.');",
  "  \x7d",
  "  const selectedValues = new Set();",
  "  if (!element.multiple) \x7b",
  "    for (const option of element.options) \x7b",
  "      option.selected = false;",
  "    \x7d",
  "    for (const option of element.options) \x7b",
  "      if (values.has(option.value)) \x7b",
  "        option.selected = true;",
  "        selectedValues.add(option.value);",
  "        break;",
  "      \x7d",
  "    \x7d",
  "  \x7d else \x7b",
  "    for (const option of element.options) \x7b",
  "      option.selected = values.has(option.value);",
  "      if (option.selected) \x7b",
  "        selectedValues.add(option.value);",
  "      \x7d",
  "    \x7d",
  "  \x7d",
  "  element.dispatchEvent(new Event('input', \x7bbubbles: true\x7d));",
  "  element.dispatchEvent(new Event('change', \x7bbubbles: true\x7d));",
  "  return [...selectedValues.values()];",
  "\x7d"]

/-- Wraps a raw binding into a function that keeps its arguments for the program and promises a
result. -/
def installBinding : String := Script.ofLines [
  "(name, bindingName) => \x7b",
  "  if (globalThis[name] && globalThis[name].callbacks) \x7b",
  "    return;",
  "  \x7d",
  "  const raw = globalThis[bindingName];",
  "  const callbacks = new Map();",
  "  const args = new Map();",
  "  let seq = 0;",
  "  const wrapper = (...params) => \x7b",
  "    const id = ++seq;",
  "    args.set(id, params);",
  "    return new Promise((resolve, reject) => \x7b",
  "      callbacks.set(id, \x7bresolve, reject\x7d);",
  "      raw(JSON.stringify(\x7bid\x7d));",
  "    \x7d);",
  "  \x7d;",
  "  wrapper.callbacks = callbacks;",
  "  wrapper.args = args;",
  "  globalThis[name] = wrapper;",
  "\x7d"]

/-- The arguments of a call, which the page no longer keeps. -/
def takeArguments : String := Script.ofLines [
  "(name, id) => \x7b",
  "  const args = globalThis[name].args.get(id);",
  "  globalThis[name].args.delete(id);",
  "  return args;",
  "\x7d"]

/-- Keeps the promise of a call. -/
def resolveCall : String := Script.ofLines [
  "(name, id, value) => \x7b",
  "  const callback = globalThis[name].callbacks.get(id);",
  "  globalThis[name].callbacks.delete(id);",
  "  callback.resolve(value);",
  "\x7d"]

/-- Breaks the promise of a call. -/
def rejectCall : String := Script.ofLines [
  "(name, id, message) => \x7b",
  "  const callback = globalThis[name].callbacks.get(id);",
  "  globalThis[name].callbacks.delete(id);",
  "  callback.reject(new Error(message));",
  "\x7d"]

/-- The document of the page. -/
def document : String := "() => document"

end Wayfind.Remote.Script
