/-
Locators: descriptions of an element to look for, again and again, until it is there.

A locator finds the element a selector matches or the value a page function gives;
locators compose by filtering with a predicate, mapping with a function, and racing
several.  Each part of such a tree carries its own options.  A composition starts with
the options of what it is made from; setters reach every part.
-/

namespace Wayfind

/-- The visibility an element has to have. -/
inductive Visibility where
  | visible
  | hidden
deriving DecidableEq, Repr

namespace Locator

/-- How a locator goes about its work. -/
structure Options where
  /-- The time it has, in milliseconds; zero for no limit. -/
  timeout : Nat
  visibility : Option Visibility
  /-- Scroll the element into the viewport first. -/
  ensureInViewport : Bool
  /-- Act only on an element that is not disabled. -/
  waitForEnabled : Bool
  /-- Act only on an element that does not move. -/
  waitForStable : Bool
deriving DecidableEq, Repr

/-- The options when nothing else is said. -/
def Options.default : Options := ⟨30000, none, true, true, true⟩

end Locator

/-- A locator over pages of a type `P`. -/
inductive Locator (P : Type) where
  /-- The element a selector matches. -/
  | node (options : Locator.Options) (page : P) (selector : String)
  /-- What a page function gives. -/
  | function (options : Locator.Options) (page : P) (script : String)
  /-- What the inner locator finds, once a predicate holds of it. -/
  | filtered (options : Locator.Options) (inner : Locator P) (predicate : String)
  /-- What a page function makes of what the inner locator finds. -/
  | mapped (options : Locator.Options) (inner : Locator P) (mapper : String)
  /-- What the first of several locators finds. -/
  | race (options : Locator.Options) (branches : List (Locator P))

namespace Locator

variable {P : Type}

/-- The options of the outermost part. -/
def options : Locator P → Options
  | node o _ _ | function o _ _ | filtered o _ _ | mapped o _ _ | race o _ => o

/-- Looks for the element a selector matches. -/
def ofSelector (page : P) (selector : String) : Locator P := node .default page selector

/-- Looks for what a page function gives. -/
def ofFunction (page : P) (script : String) : Locator P := function .default page script

/-- Takes whatever the first of several locators finds. -/
def anyOf (branches : List (Locator P)) : Locator P := race .default branches

instance : Inhabited (Locator P) := ⟨anyOf []⟩

/-- Takes only what a predicate holds of. -/
def filter (l : Locator P) (predicate : String) : Locator P := filtered l.options l predicate

/-- Takes what a page function makes of it. -/
def map (l : Locator P) (mapper : String) : Locator P := mapped l.options l mapper

mutual

/-- Changes the options of every part. -/
def configure (change : Options → Options) : Locator P → Locator P
  | node o page selector => node (change o) page selector
  | function o page script => function (change o) page script
  | filtered o inner predicate => filtered (change o) (configure change inner) predicate
  | mapped o inner mapper => mapped (change o) (configure change inner) mapper
  | race o branches => race (change o) (configureAll change branches)

/-- Changes the options of every part of several locators. -/
def configureAll (change : Options → Options) : List (Locator P) → List (Locator P)
  | [] => []
  | l :: rest => configure change l :: configureAll change rest

end

/-- A change of one option. -/
inductive Setting where
  | timeout (ms : Nat)
  | visibility (v : Option Visibility)
  | ensureInViewport (value : Bool)
  | waitForEnabled (value : Bool)
  | waitForStable (value : Bool)
deriving DecidableEq, Repr

/-- The options after a setting. -/
def Setting.apply (s : Setting) (o : Options) : Options :=
  match s with
  | timeout ms => { o with timeout := ms }
  | visibility v => { o with visibility := v }
  | ensureInViewport value => { o with ensureInViewport := value }
  | waitForEnabled value => { o with waitForEnabled := value }
  | waitForStable value => { o with waitForStable := value }

/-- The locator after a setting, which reaches every part. -/
def set (l : Locator P) (s : Setting) : Locator P := l.configure s.apply

/-- The locator after settings, one after another. -/
def setAll (l : Locator P) (settings : List Setting) : Locator P := settings.foldl set l

end Locator

end Wayfind
