/-
Reading a selector by offsets.

Here the text is its bytes, and all that is read of it is named by offsets into them.  A
character takes one to four bytes, so not every offset lies between two characters.  An access
that cannot be made, be it a stretch cut out of the text in the middle of a character, a byte
behind the end or a number taken from a smaller one, ends the reading with a fault; and
nothing in the loops below says that they ever come to an end: they are given a limit, and
have not ended when they reach it.  Every access is noted.

What is read in this way is what `parse` reads, and no access is ever at fault; and no
limit is reached that is beyond the number of bytes.
-/
import Wayfind.Selector.Parse

namespace Wayfind.Selector.Cursor

/-! ### Accesses -/

/-- What is done with offsets into a text and with counters. -/
inductive Access where
  /-- Cuts a stretch out of a text. -/
  | slice (text : String) (start stop : Nat)
  /-- Looks at the byte of a text at an offset. -/
  | byte (text : String) (pos : Nat)
  /-- Takes a number from a counter. -/
  | minus (count less : Nat)
  /-- Comes to an offset into a text. -/
  | reach (text : String) (pos : Nat)
  /-- Makes a round of a loop, which begins at an offset and goes on at another. -/
  | round (text : String) (pos next : Nat)

/-- The offset lies between two characters of the text, or at one of its ends. -/
abbrev IsBoundary (text : String) (pos : Nat) : Prop := String.Pos.Raw.IsValid text ⟨pos⟩

/-- The access can be made; and an offset come to is one into the text, and a round gets on. -/
def Access.Allowed : Access → Prop
  | slice text start stop =>
    start ≤ stop ∧ stop ≤ text.utf8ByteSize ∧ IsBoundary text start ∧ IsBoundary text stop
  | byte text pos => pos < text.utf8ByteSize
  | minus count less => less ≤ count
  | reach text pos => pos ≤ text.utf8ByteSize
  | round text pos next => pos < next ∧ next ≤ text.utf8ByteSize

/-- A reading: it may be without an end, or end with the access that could not be made.  It notes
its accesses, the last one first. -/
abbrev Reading := StateT (List Access) (ExceptT Access Option)

/-- The reading has not ended. -/
def endless {α : Type} : Reading α := StateT.lift (ExceptT.mk none)

/-- Notes an access. -/
def note (a : Access) : Reading Unit := modify (a :: ·)

/-- The bytes of a text. -/
def bytes (text : String) : List UInt8 := text.toByteArray.data.toList

/-- The stretch of a text between two offsets. -/
def slice (text : String) (start stop : Nat) : Reading String := do
  note (.slice text start stop)
  if h : start ≤ stop ∧ IsBoundary text start ∧ IsBoundary text stop then
    return text.extract ⟨⟨start⟩, h.2.1⟩ ⟨⟨stop⟩, h.2.2⟩
  else throw (.slice text start stop)

/-- The byte at an offset. -/
def byteAt (text : String) (pos : Nat) : Reading UInt8 := do
  note (.byte text pos)
  match (bytes text)[pos]? with
  | some b => return b
  | none => throw (.byte text pos)

/-- The difference of two numbers. -/
def minus (count less : Nat) : Reading Nat := do
  note (.minus count less)
  if less ≤ count then return count - less else throw (.minus count less)

/-- An offset that is come to. -/
def reach (text : String) (pos : Nat) : Reading Nat := do
  note (.reach text pos)
  return pos

/-- The stretch of a text from an offset on. -/
def tail (text : String) (pos : Nat) : Reading String := slice text pos text.utf8ByteSize

/-! ### Spans -/

/-- The byte of a character that takes a single one. -/
def code (c : Char) : UInt8 := c.toUInt8

/-- The offset behind the character at an offset. -/
def nextChar (text : String) (pos : Nat) : Reading Nat := do
  let rest ← tail text pos
  reach text (pos + (rest.toList.head?.map Char.utf8Size).getD 1)

/-- The offset behind the escape whose backslash is at an offset. -/
def skipEscape (text : String) (pos : Nat) : Reading Nat :=
  if text.utf8ByteSize ≤ pos + 1 then reach text text.utf8ByteSize
  else nextChar text (pos + 1)

/-- The offset behind the quote that closes a string, from an offset in the string on. -/
def scanStringFrom (text : String) (quote : UInt8) : Nat → Nat → Reading Nat
  | 0, _ => endless
  | limit + 1, pos => do
    if pos < text.utf8ByteSize then
      let b ← byteAt text pos
      if b = code '\\' then
        let next ← skipEscape text pos
        note (.round text pos next)
        scanStringFrom text quote limit next
      else
        note (.round text pos (pos + 1))
        if b = quote then reach text (pos + 1)
        else scanStringFrom text quote limit (pos + 1)
    else reach text text.utf8ByteSize

/-- The offset behind the string whose opening quote is at an offset. -/
def scanString (text : String) (limit pos : Nat) : Reading Nat := do
  let quote ← byteAt text pos
  scanStringFrom text quote limit (pos + 1)

/-- The offset behind the bracket that closes a group, from an offset where `depth` brackets are
open, and whether it was closed. -/
def scanGroupFrom (text : String) (opening closing : UInt8) : Nat → Nat → Nat → Reading (Nat × Bool)
  | _, 0, _ => endless
  | depth, limit + 1, pos => do
    if pos < text.utf8ByteSize then
      let b ← byteAt text pos
      if b = code '\\' then
        let next ← skipEscape text pos
        note (.round text pos next)
        scanGroupFrom text opening closing depth limit next
      else if b = code '"' ∨ b = code '\'' then
        let next ← scanString text limit pos
        note (.round text pos next)
        scanGroupFrom text opening closing depth limit next
      else
        note (.round text pos (pos + 1))
        if b = opening then scanGroupFrom text opening closing (depth + 1) limit (pos + 1)
        else if b = closing then
          let left ← minus depth 1
          if left = 0 then return (← reach text (pos + 1), true)
          else scanGroupFrom text opening closing left limit (pos + 1)
        else scanGroupFrom text opening closing depth limit (pos + 1)
    else return (← reach text text.utf8ByteSize, false)

/-- The offset behind the group whose opening bracket is at an offset, and whether it was closed. -/
def scanGroup (text : String) (opening closing : UInt8) (limit pos : Nat) : Reading (Nat × Bool) :=
  scanGroupFrom text opening closing 0 limit pos

/-- The text between matching outer quotes, or the text itself. -/
def withoutQuotes (text : String) : Reading String :=
  match text.toList.head? with
  | none => return text
  | some q =>
    if 2 ≤ text.utf8ByteSize ∧ isQuote q = true ∧ text.toList.getLast? = some q then do
      let stop ← minus text.utf8ByteSize 1
      slice text 1 stop
    else return text

/-- The value of an argument: outer quotes are stripped, escapes resolved. -/
def unquote (text : String) : Reading String := do
  let inner ← withoutQuotes text
  return String.ofList (unescape inner.toList)

/-! ### What has been read -/

/-- The part of a selector that has been read. -/
structure Draft where
  /-- CSS that belongs to no fragment yet. -/
  buffer : String
  compound : Compound
  complex : Complex
  list : SelectorList
  isPureCss : Bool
  hasPseudoClasses : Bool
  hasAria : Bool

namespace Draft

/-- Nothing has been read. -/
def empty : Draft := ⟨"", [], [], [], true, false, false⟩

/-- More CSS. -/
def write (css : String) (d : Draft) : Draft := { d with buffer := d.buffer ++ css }

/-- Makes a fragment of the CSS. -/
def flush (d : Draft) : Draft :=
  { d with compound := d.compound ++ fragment d.buffer.toList, buffer := "" }

/-- Ends the compound. -/
def closeCompound (d : Draft) : Draft :=
  { d.flush with complex := d.complex ++ [.compound d.flush.compound], compound := [] }

/-- Ends the complex selector. -/
def closeComplex (d : Draft) : Draft :=
  { d.closeCompound with list := d.list ++ [d.closeCompound.complex], complex := [] }

/-- Ends the compound with a combinator. -/
def combine (c : Combinator) (d : Draft) : Draft :=
  { d.closeCompound with
    complex := d.closeCompound.complex ++ [.combinator c]
    isPureCss := false }

/-- A pseudo node behind the CSS. -/
def addPseudo (node : PseudoNode) (d : Draft) : Draft :=
  { d.flush with
    compound := d.flush.compound ++ [.pseudo node]
    isPureCss := false
    hasAria := d.hasAria || node.name == PseudoNode.ariaName }

/-- A pseudo-class is in the CSS. -/
def notePseudoClass (d : Draft) : Draft := { d with hasPseudoClasses := true }

/-- What is known of the selector when all has been read. -/
def finish (d : Draft) : Parsed where
  isPureCss := d.isPureCss
  ast := if d.isPureCss then none else some d.closeComplex.list
  hasPseudoClasses := d.hasPseudoClasses
  hasAria := d.hasAria

end Draft

/-! ### The reader -/

/-- An offset into a text, and what has been read before it. -/
structure Reader where
  pos : Nat
  draft : Draft

namespace Reader

/-- Takes the text up to an offset as CSS. -/
def take (text : String) (stop : Nat) (r : Reader) : Reading Reader := do
  let css ← slice text r.pos stop
  return ⟨stop, r.draft.write css⟩

/-- Skips the blanks at an offset. -/
def skipBlanks (text : String) (pos : Nat) : Reading Nat := do
  let rest ← tail text pos
  let skipped ← minus rest.utf8ByteSize (String.ofList (Text.trimStart rest.toList)).utf8ByteSize
  reach text (pos + skipped)

/-- The number of bytes at the start of a text that are characters of a kind. -/
def countBytes (p : Char → Bool) (text : String) : Nat :=
  ((bytes text).takeWhile fun b => p (Char.ofUInt8 b)).length

/-- An argument in parentheses opens at an offset. -/
def opensArgument (text : String) (pos : Nat) : Bool := (bytes text)[pos]? == some (code '(')

/-- The argument at an offset, if there is one: the offset behind it, and its value. -/
def argument (text : String) (limit pos : Nat) : Reading (Nat × String) := do
  if opensArgument text pos then
    let (stop, closed) ← scanGroup text (code '(') (code ')') limit pos
    let innerStop ← if closed then minus stop 1 else pure stop
    let raw ← slice text (pos + 1) innerStop
    let value ← unquote (String.ofList (Text.trim raw.toList))
    return (stop, value)
  else return (pos, "")

/-- The offset behind the argument at an offset, if there is one. -/
def argumentEnd (text : String) (limit pos : Nat) : Reading Nat := do
  if opensArgument text pos then
    let (stop, _) ← scanGroup text (code '(') (code ')') limit pos
    return stop
  else return pos

/-- Reads a combinator. -/
def combinator (text : String) (c : Combinator) (r : Reader) : Reading Reader := do
  let pos ← skipBlanks text (r.pos + c.text.utf8ByteSize)
  return ⟨pos, r.draft.combine c⟩

/-- Reads a comma. -/
def comma (text : String) (r : Reader) : Reading Reader := do
  let pos ← skipBlanks text (r.pos + 1)
  return ⟨pos, r.draft.closeComplex⟩

/-- Reads a pseudo node; without a name its mark is CSS. -/
def pseudo (text : String) (limit : Nat) (r : Reader) : Reading Reader := do
  let nameStart := r.pos + Piece.pseudoMark.length
  let length := countBytes Piece.isNameChar (← tail text nameStart)
  if length = 0 then r.take text nameStart
  else
    let name ← slice text nameStart (nameStart + length)
    let (stop, value) ← argument text limit (nameStart + length)
    return ⟨stop, r.draft.addPseudo ⟨name, value⟩⟩

/-- Reads a pseudo-class; without a name its colon is CSS. -/
def pseudoClass (text : String) (limit : Nat) (r : Reader) : Reading Reader := do
  let nameStart := r.pos + 1
  let length := countBytes Piece.isIdentChar (← tail text nameStart)
  let nameEnd := nameStart + length
  if length = 0 then r.take text nameEnd
  else
    let stop ← argumentEnd text limit nameEnd
    { r with draft := r.draft.notePseudoClass }.take text stop

/-- The text begins with another. -/
def startsWith (text : String) (start : List Char) : Bool := start.isPrefixOf text.toList

/-- Reads what starts with a byte. -/
def turn (text : String) (limit : Nat) (r : Reader) (b : UInt8) : Reading Reader := do
  match Char.ofUInt8 b with
  | '"' | '\'' => r.take text (← scanString text limit r.pos)
  | '[' => r.take text (← scanGroup text (code '[') (code ']') limit r.pos).1
  | '(' => r.take text (← scanGroup text (code '(') (code ')') limit r.pos).1
  | '\\' => r.take text (← skipEscape text r.pos)
  | '>' =>
    let rest ← tail text r.pos
    if startsWith rest Combinator.child.text.toList then r.combinator text .child
    else if startsWith rest Combinator.descendant.text.toList then r.combinator text .descendant
    else r.take text (← nextChar text r.pos)
  | ':' =>
    let rest ← tail text r.pos
    if startsWith rest Piece.pseudoMark then r.pseudo text limit
    else if startsWith rest [':', ':'] then r.take text (r.pos + 2)
    else r.pseudoClass text limit
  | ',' => r.comma text
  | _ => r.take text (← nextChar text r.pos)

/-- Reads up to the end of the text. -/
def run (text : String) : Nat → Reader → Reading Reader
  | 0, _ => endless
  | limit + 1, r => do
    if r.pos < text.utf8ByteSize then
      let b ← byteAt text r.pos
      let next ← r.turn text (limit + 1) b
      note (.round text r.pos next.pos)
      run text limit next
    else return r

end Reader

/-- Reads a selector text by offsets, with a limit to the rounds of a loop. -/
def read (text : String) (limit : Nat) : Reading Parsed := do
  let r ← Reader.run text limit ⟨0, .empty⟩
  return r.draft.finish

end Wayfind.Selector.Cursor
