/-
How a dialect turns a selector into scripts.

Every dialect is its two scripts, and a selector is handed to them as it stands.  Plain
CSS looks at the selector first: extended syntax goes, in its structured form, to the
scripts of the matcher that understands it.  Scripts that ask the accessibility tree
call back into the program while they wait.
-/
import Wayfind.Query.Dialect
import Wayfind.Query.Scripts
import Wayfind.Selector.Wire

namespace Wayfind.Query

/-- The page name of the function that scripts call to ask the accessibility tree. -/
def ariaFunctionName : String := "ariaQuerySelector"

/-- A dialect and its scripts. -/
structure Handler where
  dialect : Dialect
  scripts : Scripts
deriving DecidableEq, Repr

namespace Handler

/-- Plain CSS. -/
def css : Handler := ⟨.css, {
  one := "(element, selector, \x7bcssQuerySelector\x7d) => cssQuerySelector(element, selector)"
  all := "(element, selector, \x7bcssQuerySelectorAll\x7d) => cssQuerySelectorAll(element, selector)" }⟩

/-- The scripts for extended selectors in their structured form. -/
def structuredScripts : Scripts := {
  one := "(element, selector, \x7bpQuerySelector\x7d) => pQuerySelector(element, selector)"
  all := "(element, selector, \x7bpQuerySelectorAll\x7d) => pQuerySelectorAll(element, selector)" }

/-- Accessible name and role. -/
def aria : Handler := ⟨.aria, {
  one := "(node, selector, \x7bariaQuerySelector\x7d) => ariaQuerySelector(node, selector)"
  all := "async function* (node, selector, \x7bariaQuerySelectorAll\x7d) \x7b" ++
    " yield* ariaQuerySelectorAll(node, selector); \x7d" }⟩

/-- CSS inside every open shadow root. -/
def pierce : Handler := ⟨.pierce, {
  one := "(element, selector, \x7bpierceQuerySelector\x7d) => pierceQuerySelector(element, selector)"
  all := "(element, selector, \x7bpierceQuerySelectorAll\x7d) => " ++
    "pierceQuerySelectorAll(element, selector)" }⟩

/-- The scripts of a dialect that generates every match. -/
def generating (dialect : Dialect) (all : String) : Handler :=
  ⟨dialect, ⟨Scripts.oneFromAll all, all⟩⟩

/-- Elements by the text they hold. -/
def text : Handler := generating .text
  "(element, selector, \x7btextQuerySelectorAll\x7d) => textQuerySelectorAll(element, selector)"

/-- Elements by a path expression. -/
def xpath : Handler := generating .xpath
  "(element, selector, \x7bxpathQuerySelectorAll\x7d) => xpathQuerySelectorAll(element, selector)"

/-- The scripts of the handler call the function that asks the accessibility tree. -/
def asksAria (h : Handler) : Bool := h.dialect == .aria

end Handler

/-- A selector made ready for evaluation. -/
structure Prepared where
  /-- What is handed to the scripts. -/
  selector : String
  scripts : Scripts
  /-- The scripts call the function that asks the accessibility tree. -/
  asksAria : Bool
deriving DecidableEq, Repr

/-- The page names of the functions that evaluation may call. -/
def bindingNames (asksAria : Bool) : List String :=
  if asksAria then [ariaFunctionName] else []

/-- Makes a selector ready for evaluation in a dialect. -/
def Handler.prepare (h : Handler) (selector : String) : Prepared :=
  match h.dialect with
  | .css =>
    let parsed := Selector.parse selector
    match parsed.astText with
    | some text => ⟨text, structuredScripts, parsed.hasAria⟩
    | none => ⟨selector, h.scripts, false⟩
  | _ => ⟨selector, h.scripts, h.asksAria⟩

end Wayfind.Query
