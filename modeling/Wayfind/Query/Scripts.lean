/-
The scripts of a query dialect.

A dialect is two page functions over a node, a selector and the utility bundle: one
gives the first match, the other generates all of them.  Whoever defines a dialect may
write one of them, and the other is made from it.
-/
import Wayfind.Error

namespace Wayfind.Query

/-- The text of a script from its lines. -/
def Script.ofLines (lines : List String) : String := "\n".intercalate lines

/-- The two functions of a dialect. -/
structure Scripts where
  /-- Gives the first match. -/
  one : String
  /-- Generates every match. -/
  all : String
deriving DecidableEq, Repr

namespace Scripts

/-- Generates the single result of a function that gives one, if any. -/
def allFromOne (one : String) : String := Script.ofLines [
  "async function* (node, selector, PuppeteerUtil) \x7b",
  "  const querySelector = (" ++ one ++ ");",
  "  const result = await querySelector(node, selector, PuppeteerUtil);",
  "  if (result) \x7b",
  "    yield result;",
  "  \x7d",
  "\x7d"]

/-- Gives the first result of a function that generates all. -/
def oneFromAll (all : String) : String := Script.ofLines [
  "async (node, selector, PuppeteerUtil) => \x7b",
  "  const querySelectorAll = (" ++ all ++ ");",
  "  const results = querySelectorAll(node, selector, PuppeteerUtil);",
  "  for await (const result of results) \x7b",
  "    return result;",
  "  \x7d",
  "  return null;",
  "\x7d"]

/-- The scripts of a dialect from whichever of the two were written. -/
def ofParts (one all : Option String) : Except Error Scripts :=
  match one, all with
  | some one, some all => .ok ⟨one, all⟩
  | some one, none => .ok ⟨one, allFromOne one⟩
  | none, some all => .ok ⟨oneFromAll all, all⟩
  | none, none => .error (.queryHandler "At least one query method must be implemented")

end Scripts

/-- Opens an iterator over every match, from which batches are pulled. -/
def iteratorScript : String := Script.ofLines [
  "(node, query, selector, PuppeteerUtil) => \x7b",
  "  const querySelectorAll = PuppeteerUtil.createFunction(query);",
  "  return querySelectorAll(node, selector, PuppeteerUtil)[Symbol.asyncIterator]();",
  "\x7d"]

/-- Pulls the next batch out of an iterator. -/
def batchScript : String := Script.ofLines [
  "async (iterator, size) => \x7b",
  "  const results = [];",
  "  while (results.length < size) \x7b",
  "    const result = await iterator.next();",
  "    if (result.done) \x7b",
  "      break;",
  "    \x7d",
  "    results.push(result.value);",
  "  \x7d",
  "  return results;",
  "\x7d"]

/-- The number of matches pulled in one batch. -/
def batchSize : Nat := 20

/-- The condition of a wait: the first match, if its visibility is as asked. -/
def waitScript : String := Script.ofLines [
  "async (PuppeteerUtil, query, selector, root, visible) => \x7b",
  "  if (!PuppeteerUtil) \x7b",
  "    return;",
  "  \x7d",
  "  const node = await PuppeteerUtil.createFunction(query)(root || document, selector, PuppeteerUtil);",
  "  return PuppeteerUtil.checkVisibility(node, visible);",
  "\x7d"]

end Wayfind.Query
