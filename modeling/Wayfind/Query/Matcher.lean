/-
The page side of the query dialects: the text of the utility bundle.

The bundle is one expression.  Evaluated in a page, it gives the object whose members
the query scripts name in their last parameter.
-/
import Wayfind.Query.Scripts

namespace Wayfind.Query

/-- The utility bundle sent to a page that has none of its own. -/
def matcherBundle : String := Script.ofLines [
  "(() => \x7b",
  "  const functionCache = new Map();",
  "",
  "  const createFunction = (source) => \x7b",
  "    let fn = functionCache.get(source);",
  "    if (!fn) \x7b",
  "      fn = new Function(`return $\x7bsource\x7d`)();",
  "      functionCache.set(source, fn);",
  "    \x7d",
  "    return fn;",
  "  \x7d;",
  "",
  "  const isBoundingBoxVisible = (element) => \x7b",
  "    const rect = element.getBoundingClientRect();",
  "    return rect.width > 0 && rect.height > 0;",
  "  \x7d;",
  "",
  "  const checkVisibility = (node, visibility) => \x7b",
  "    if (!node) \x7b",
  "      return visibility === false;",
  "    \x7d",
  "    if (visibility === undefined) \x7b",
  "      return node;",
  "    \x7d",
  "    const element = node.nodeType === Node.TEXT_NODE ? node.parentElement : node;",
  "    const style = window.getComputedStyle(element);",
  "    const isVisible = style && style.visibility !== 'hidden' && isBoundingBoxVisible(element);",
  "    return visibility === isVisible ? node : false;",
  "  \x7d;",
  "",
  "  function* deepDescendants(root) \x7b",
  "    const walker = document.createTreeWalker(root, NodeFilter.SHOW_ELEMENT);",
  "    let node = walker.nextNode();",
  "    while (node) \x7b",
  "      yield node;",
  "      if (node.shadowRoot) \x7b",
  "        yield* deepDescendants(node.shadowRoot);",
  "      \x7d",
  "      node = walker.nextNode();",
  "    \x7d",
  "    if (root.shadowRoot && root.nodeType === Node.ELEMENT_NODE) \x7b",
  "      yield* deepDescendants(root.shadowRoot);",
  "    \x7d",
  "  \x7d",
  "",
  "  function* deepChildren(root) \x7b",
  "    yield* root.children || [];",
  "    if (root.shadowRoot) \x7b",
  "      yield* root.shadowRoot.children;",
  "    \x7d",
  "  \x7d",
  "",
  "  const cssQuerySelector = (root, selector) => root.querySelector(selector);",
  "",
  "  function* cssQuerySelectorAll(root, selector) \x7b",
  "    yield* root.querySelectorAll(selector);",
  "  \x7d",
  "",
  "  const pierceQuerySelector = (root, selector) => \x7b",
  "    for (const element of deepDescendants(root)) \x7b",
  "      if (element.matches(selector)) \x7b",
  "        return element;",
  "      \x7d",
  "    \x7d",
  "    return null;",
  "  \x7d;",
  "",
  "  function* pierceQuerySelectorAll(root, selector) \x7b",
  "    for (const element of deepDescendants(root)) \x7b",
  "      if (element.matches(selector)) \x7b",
  "        yield element;",
  "      \x7d",
  "    \x7d",
  "  \x7d",
  "",
  "  function* xpathQuerySelectorAll(root, selector) \x7b",
  "    const doc = root.ownerDocument || document;",
  "    const iterator = doc.evaluate(selector, root, null, XPathResult.ORDERED_NODE_ITERATOR_TYPE);",
  "    const items = [];",
  "    let item = iterator.iterateNext();",
  "    while (item) \x7b",
  "      items.push(item);",
  "      item = iterator.iterateNext();",
  "    \x7d",
  "    yield* items;",
  "  \x7d",
  "",
  "  const textOf = (element) => (element.innerText ?? element.textContent ?? '').replace(/\\s+/g, ' ').trim();",
  "",
  "  function* textQuerySelectorAll(root, selector) \x7b",
  "    const matches = [];",
  "    for (const element of deepDescendants(root)) \x7b",
  "      if (textOf(element).includes(selector)) \x7b",
  "        matches.push(element);",
  "      \x7d",
  "    \x7d",
  "    // keep the deepest matches only",
  "    yield* matches.filter(",
  "      (element) => !matches.some((other) => other !== element && element.contains(other))",
  "    );",
  "  \x7d",
  "",
  "  const IMPLICIT_ROLES = \x7b",
  "    A: 'link',",
  "    BUTTON: 'button',",
  "    H1: 'heading',",
  "    H2: 'heading',",
  "    H3: 'heading',",
  "    H4: 'heading',",
  "    H5: 'heading',",
  "    H6: 'heading',",
  "    IMG: 'img',",
  "    INPUT: 'textbox',",
  "    LI: 'listitem',",
  "    NAV: 'navigation',",
  "    OL: 'list',",
  "    SELECT: 'combobox',",
  "    TEXTAREA: 'textbox',",
  "    UL: 'list',",
  "  \x7d;",
  "",
  "  const ATTRIBUTE = /\\[\\s*(\\w+)\\s*=\\s*(?:\"((?:\\\\.|[^\"\\\\])*)\"|'((?:\\\\.|[^'\\\\])*)')\\s*\\]/g;",
  "  const normalize = (value) => value.replace(/ +/g, ' ').trim();",
  "",
  "  const parseAriaSelector = (selector) => \x7b",
  "    const query = \x7b\x7d;",
  "    const defaultName = selector.replace(ATTRIBUTE, (_, attribute, double, single) => \x7b",
  "      if (attribute !== 'name' && attribute !== 'role') \x7b",
  "        throw new Error(`Unknown aria attribute \"$\x7battribute\x7d\" in selector`);",
  "      \x7d",
  "      query[attribute] = normalize(double ?? single ?? '');",
  "      return '';",
  "    \x7d);",
  "    if (normalize(defaultName) && !query.name) \x7b",
  "      query.name = normalize(defaultName);",
  "    \x7d",
  "    return query;",
  "  \x7d;",
  "",
  "  const ariaMatches = (element, query) => \x7b",
  "    const role = element.getAttribute('role') || IMPLICIT_ROLES[element.tagName];",
  "    if (query.role && role !== query.role) \x7b",
  "      return false;",
  "    \x7d",
  "    if (query.name) \x7b",
  "      const name = element.getAttribute('aria-label') || element.getAttribute('alt') || textOf(element);",
  "      return normalize(name) === query.name;",
  "    \x7d",
  "    return true;",
  "  \x7d;",
  "",
  "  async function* ariaQuerySelectorAll(root, selector) \x7b",
  "    const query = parseAriaSelector(selector);",
  "    for (const element of deepDescendants(root)) \x7b",
  "      if (ariaMatches(element, query)) \x7b",
  "        yield element;",
  "      \x7d",
  "    \x7d",
  "  \x7d",
  "",
  "  const ariaQuerySelector = async (root, selector) => \x7b",
  "    const binding = globalThis.ariaQuerySelector;",
  "    if (typeof binding === 'function' && binding.callbacks) \x7b",
  "      return binding(root, selector);",
  "    \x7d",
  "    for await (const element of ariaQuerySelectorAll(root, selector)) \x7b",
  "      return element;",
  "    \x7d",
  "    return null;",
  "  \x7d;",
  "",
  "  const P_HANDLERS = \x7b",
  "    text: textQuerySelectorAll,",
  "    xpath: xpathQuerySelectorAll,",
  "    aria: ariaQuerySelectorAll,",
  "    pierce: pierceQuerySelectorAll,",
  "  \x7d;",
  "",
  "  async function* candidates(context, combinator, css) \x7b",
  "    if (combinator === '>>>') \x7b",
  "      for (const element of deepDescendants(context)) \x7b",
  "        if (!css || element.matches(css)) \x7b",
  "          yield element;",
  "        \x7d",
  "      \x7d",
  "    \x7d else if (combinator === '>>>>') \x7b",
  "      for (const element of deepChildren(context)) \x7b",
  "        if (!css || element.matches(css)) \x7b",
  "          yield element;",
  "        \x7d",
  "      \x7d",
  "    \x7d else if (css) \x7b",
  "      yield* context.querySelectorAll(css);",
  "    \x7d else \x7b",
  "      yield* context.querySelectorAll('*');",
  "    \x7d",
  "  \x7d",
  "",
  "  const pseudoMatches = async (element, context, pseudo) => \x7b",
  "    const handler = P_HANDLERS[pseudo.name];",
  "    if (!handler) \x7b",
  "      throw new Error(`Unknown selector type: $\x7bpseudo.name\x7d`);",
  "    \x7d",
  "    for await (const match of handler(context, pseudo.value)) \x7b",
  "      if (match === element) \x7b",
  "        return true;",
  "      \x7d",
  "    \x7d",
  "    return false;",
  "  \x7d;",
  "",
  "  async function* matchCompound(context, combinator, compound) \x7b",
  "    const css = compound.filter((part) => typeof part === 'string').join('');",
  "    const pseudos = compound.filter((part) => typeof part !== 'string');",
  "    for await (const element of candidates(context, combinator, css)) \x7b",
  "      let ok = true;",
  "      for (const pseudo of pseudos) \x7b",
  "        if (!(await pseudoMatches(element, context, pseudo))) \x7b",
  "          ok = false;",
  "          break;",
  "        \x7d",
  "      \x7d",
  "      if (ok) \x7b",
  "        yield element;",
  "      \x7d",
  "    \x7d",
  "  \x7d",
  "",
  "  async function* matchComplex(root, complex) \x7b",
  "    let contexts = [root];",
  "    let combinator = null;",
  "    for (const part of complex) \x7b",
  "      if (typeof part === 'string') \x7b",
  "        combinator = part;",
  "        continue;",
  "      \x7d",
  "      if (part.length === 0) \x7b",
  "        continue;",
  "      \x7d",
  "      const next = new Set();",
  "      for (const context of contexts) \x7b",
  "        for await (const element of matchCompound(context, combinator, part)) \x7b",
  "          next.add(element);",
  "        \x7d",
  "      \x7d",
  "      contexts = [...next];",
  "      combinator = null;",
  "    \x7d",
  "    yield* contexts.filter((element) => element !== root);",
  "  \x7d",
  "",
  "  async function* pQuerySelectorAll(root, selector) \x7b",
  "    const list = typeof selector === 'string' ? JSON.parse(selector) : selector;",
  "    const seen = new Set();",
  "    for (const complex of list) \x7b",
  "      for await (const element of matchComplex(root, complex)) \x7b",
  "        if (!seen.has(element)) \x7b",
  "          seen.add(element);",
  "          yield element;",
  "        \x7d",
  "      \x7d",
  "    \x7d",
  "  \x7d",
  "",
  "  const pQuerySelector = async (root, selector) => \x7b",
  "    for await (const element of pQuerySelectorAll(root, selector)) \x7b",
  "      return element;",
  "    \x7d",
  "    return null;",
  "  \x7d;",
  "",
  "  return \x7b",
  "    createFunction,",
  "    checkVisibility,",
  "    cssQuerySelector,",
  "    cssQuerySelectorAll,",
  "    pierceQuerySelector,",
  "    pierceQuerySelectorAll,",
  "    xpathQuerySelectorAll,",
  "    textQuerySelectorAll,",
  "    ariaQuerySelector,",
  "    ariaQuerySelectorAll,",
  "    pQuerySelector,",
  "    pQuerySelectorAll,",
  "  \x7d;",
  "\x7d)()",
  ""]

end Wayfind.Query
