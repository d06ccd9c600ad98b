/-
Scanning by offsets.

Each scan of a span goes well where a span begins, and comes to the offset behind the characters
that are cut off there: behind an escape (`runs_skipEscape`), a string (`runs_scanString`), a group
(`loops_scanGroup`).  The two loops look at one byte in each round and so go through the middle of
characters; they may, for no byte in there is one that they look for.

In a group the scan is never without an open bracket: it begins at one, and ends at the
bracket that closes the last.  That is what the counter rests on.

What is known of group texts by their characters then holds of the offsets, too: the scan takes the
group text that is there, and of one that was cut short it takes all there is (`scanGroup_groupText`).
-/
import Wayfind.Proofs.Selector.Groups
import Wayfind.Proofs.Selector.Offsets

namespace Wayfind.Selector.Cursor

variable {quote opening closing c : Char} {cs rest : List Char}
variable {text : String} {pos depth : Nat} {b : UInt8}

/-! ### Bytes of a kind -/

theorem code_inj {d : Char} (hc : c.utf8Size = 1) (hd : d.utf8Size = 1) : code c = code d ↔ c = d := by
  rw [← code_mem_encode hd, encode_of_ascii hc, List.mem_singleton, eq_comm]

theorem ne_code_of_mem {d : Char} (hd : d.utf8Size = 1) (hb : b ∈ String.utf8EncodeChar c) (hne : c ≠ d) :
    b ≠ code d := by
  rintro rfl
  exact hne ((code_mem_encode hd).mp hb)

theorem ascii_of_isQuote (h : isQuote c = true) : c.utf8Size = 1 := by
  simp only [isQuote, Bool.or_eq_true, decide_eq_true_eq] at h
  rcases h with rfl | rfl <;> decide

/-- The byte of a quote is one of two. -/
theorem code_quote_iff (hc : c.utf8Size = 1) :
    code c = code '"' ∨ code c = code '\'' ↔ isQuote c = true := by
  rw [code_inj hc (by decide), code_inj hc (by decide)]
  simp [isQuote]

/-! ### Characters and escapes -/

theorem runs_nextChar (h : At text pos (c :: rest)) : Runs (nextChar text pos) (pos + c.utf8Size) := by
  refine (runs_tail h).bind ?_
  rw [String.toList_ofList]
  exact runs_reach h.next.le

theorem runs_skipEscape {d : Char} (h : At text pos ('\\' :: d :: rest)) :
    Runs (skipEscape text pos) (pos + 1 + d.utf8Size) := by
  have hnext : At text (pos + 1) (d :: rest) := h.next
  have hlt := hnext.lt
  rw [skipEscape, if_neg (by omega)]
  exact runs_nextChar hnext

/-- At the end of the text there is nothing to skip. -/
theorem runs_skipEscape_alone (h : At text pos ['\\']) : Runs (skipEscape text pos) (pos + 1) := by
  have hend : pos + 1 = text.utf8ByteSize := At.eq_size h.next
  rw [skipEscape, if_pos (by omega), hend]
  exact runs_reach (Nat.le_refl _)

/-! ### Strings -/

section Strings

variable {quoteByte : UInt8} {stop : Nat}

theorem loops_stringEnd :
    Loops text (scanStringFrom text quoteByte) text.utf8ByteSize text.utf8ByteSize := by
  refine loops_of_round (Nat.le_refl _) fun limit _ => ?_
  rw [scanStringFrom, if_neg (Nat.lt_irrefl _)]
  exact runs_reach (Nat.le_refl _)

theorem loops_stringEscape {next : Nat} (hb : (bytes text)[pos]? = some (code '\\'))
    (hskip : Runs (skipEscape text pos) next) (hlt : pos < next) (hle : next ≤ text.utf8ByteSize)
    (hrest : Loops text (scanStringFrom text quoteByte) next stop) :
    Loops text (scanStringFrom text quoteByte) pos stop := by
  refine loops_of_round (Nat.le_of_lt (lt_of_byte hb)) fun limit hlimit => ?_
  rw [scanStringFrom, if_pos (lt_of_byte hb)]
  refine (runs_byteAt hb).bind ?_
  rw [if_pos rfl]
  refine hskip.bind ((runs_note (x := .round text pos next) ⟨hlt, hle⟩).bind ?_)
  exact hrest limit (by omega)

/-- A byte that is neither the backslash nor the quote is passed over. -/
theorem loops_stringByte (hb : (bytes text)[pos]? = some b) (hescape : b ≠ code '\\')
    (hquote : b ≠ quoteByte) (hrest : Loops text (scanStringFrom text quoteByte) (pos + 1) stop) :
    Loops text (scanStringFrom text quoteByte) pos stop := by
  have hlt := lt_of_byte hb
  refine loops_of_round (Nat.le_of_lt hlt) fun limit hlimit => ?_
  rw [scanStringFrom, if_pos hlt]
  refine (runs_byteAt hb).bind ?_
  rw [if_neg hescape]
  refine (runs_note (x := .round text pos (pos + 1)) ⟨Nat.lt_succ_self pos, hlt⟩).bind ?_
  rw [if_neg hquote]
  exact hrest limit (by omega)

theorem loops_stringQuote (hb : (bytes text)[pos]? = some b) (hescape : b ≠ code '\\') :
    Loops text (scanStringFrom text b) pos (pos + 1) := by
  have hlt := lt_of_byte hb
  refine loops_of_round (Nat.le_of_lt hlt) fun limit _ => ?_
  rw [scanStringFrom, if_pos hlt]
  refine (runs_byteAt hb).bind ?_
  rw [if_neg hescape]
  refine (runs_note (x := .round text pos (pos + 1)) ⟨Nat.lt_succ_self pos, hlt⟩).bind ?_
  rw [if_pos rfl]
  exact runs_reach hlt

end Strings

/-- Within a string the scan comes to where the string is cut off. -/
theorem loops_scanStringFrom (hascii : quote.utf8Size = 1) (hescape : quote ≠ '\\') (h : At text pos cs) :
    Loops text (scanStringFrom text (code quote)) pos (pos + width (cutString quote cs).1) := by
  have hbackslash : '\\'.utf8Size = 1 := by decide
  fun_induction cutString quote cs generalizing pos with
  | case1 =>
    rw [h.eq_size]
    exact loops_stringEnd
  | case2 d cs taken left hcut ih =>
    rw [hcut] at ih
    have hnext : At text (pos + 1 + d.utf8Size) cs := h.next.next
    have hpos : pos + width ('\\' :: d :: taken) = pos + 1 + d.utf8Size + width taken := by
      rw [width_cons, width_cons, hbackslash]
      omega
    have hlt : pos < pos + 1 + d.utf8Size := by omega
    rw [hpos]
    exact loops_stringEscape (h.byte_ascii hbackslash) (runs_skipEscape h) hlt hnext.le (ih hnext)
  | case3 cs halone =>
    have hne : code quote ≠ code '\\' := mt (code_inj hascii hbackslash).mp hescape
    have hstop : pos + width [quote] = pos + 1 := by rw [width_cons, width_nil, hascii]
    rw [hstop]
    exact loops_stringQuote (h.byte_ascii hascii) hne
  | case4 d cs halone hne taken left hcut ih =>
    rw [hcut] at ih
    have hnext : At text (pos + d.utf8Size) cs := h.next
    have hpos : pos + width (d :: taken) = pos + d.utf8Size + width taken := by
      rw [width_cons]
      omega
    rw [hpos]
    by_cases hd : d = '\\'
    · -- the backslash is the last character of the text
      subst hd
      have hend : cs = [] := by
        cases cs with
        | nil => rfl
        | cons e cs => exact absurd rfl (halone e cs rfl)
      subst hend
      have hle := hnext.le
      rw [hbackslash] at hnext hle ⊢
      exact loops_stringEscape (h.byte_ascii hbackslash) (runs_skipEscape_alone h) (Nat.lt_succ_self pos)
        hle (ih hnext)
    · refine Loops.pass h (fun i b hb hmem hrest => ?_) (ih hnext)
      exact loops_stringByte hb (ne_code_of_mem hbackslash hmem hd) (ne_code_of_mem hascii hmem hne) hrest

/-- The scan of a string comes to where the string is cut off. -/
theorem runs_scanString (hquote : isQuote quote = true) (h : At text pos (quote :: cs)) {limit : Nat}
    (hlimit : text.utf8ByteSize < pos + 1 + limit) :
    Runs (scanString text limit pos) (pos + 1 + width (cutString quote cs).1) := by
  have hascii := ascii_of_isQuote hquote
  have hescape : quote ≠ '\\' := by
    rintro rfl
    exact absurd hquote (by decide)
  have hnext : At text (pos + 1) cs := by
    have hmove := h.next
    rwa [hascii] at hmove
  exact (runs_byteAt (h.byte_ascii hascii)).bind (loops_scanStringFrom hascii hescape hnext limit hlimit)

/-- What is left of the text stands behind the string. -/
theorem at_cutString (hquote : isQuote c = true) (h : At text pos (c :: cs)) :
    At text (pos + 1 + width (cutString c cs).1) (cutString c cs).2 := by
  have hrest := h.next
  rw [ascii_of_isQuote hquote, ← cutString_append c cs] at hrest
  exact hrest.move

/-! ### Groups -/

section Groups

variable {openByte closeByte : UInt8} {found : Nat × Bool}

theorem loops_groupEnd :
    Loops text (scanGroupFrom text openByte closeByte depth) text.utf8ByteSize
      (text.utf8ByteSize, false) := by
  refine loops_of_round (Nat.le_refl _) fun limit _ => ?_
  rw [scanGroupFrom, if_neg (Nat.lt_irrefl _)]
  exact (runs_reach (Nat.le_refl _)).bind (runs_pure _)

/-- A backslash is skipped together with what it takes along. -/
theorem loops_groupEscape {next : Nat} (hb : (bytes text)[pos]? = some (code '\\'))
    (hskip : Runs (skipEscape text pos) next) (hlt : pos < next) (hle : next ≤ text.utf8ByteSize)
    (hrest : Loops text (scanGroupFrom text openByte closeByte depth) next found) :
    Loops text (scanGroupFrom text openByte closeByte depth) pos found := by
  refine loops_of_round (Nat.le_of_lt (lt_of_byte hb)) fun limit hlimit => ?_
  rw [scanGroupFrom, if_pos (lt_of_byte hb)]
  refine (runs_byteAt hb).bind ?_
  rw [if_pos rfl]
  refine hskip.bind ((runs_note (x := .round text pos next) ⟨hlt, hle⟩).bind ?_)
  exact hrest limit (by omega)

/-- A string is skipped as a whole. -/
theorem loops_groupString (hquote : isQuote c = true) (h : At text pos (c :: cs))
    (hrest : Loops text (scanGroupFrom text openByte closeByte depth)
      (pos + 1 + width (cutString c cs).1) found) :
    Loops text (scanGroupFrom text openByte closeByte depth) pos found := by
  have hascii := ascii_of_isQuote hquote
  have hescape : code c ≠ code '\\' := by
    rw [ne_eq, code_inj hascii (by decide)]
    rintro rfl
    exact absurd hquote (by decide)
  have hnext := at_cutString hquote h
  refine loops_of_round h.le fun limit hlimit => ?_
  rw [scanGroupFrom, if_pos h.lt]
  refine (runs_byteAt (h.byte_ascii hascii)).bind ?_
  rw [if_neg hescape, if_pos ((code_quote_iff hascii).mpr hquote)]
  refine (runs_scanString hquote h (by omega)).bind ?_
  refine (runs_note (x := .round text pos _) ⟨?_, hnext.le⟩).bind (hrest limit ?_)
  · omega
  · omega

/-- What becomes of a byte that is neither the backslash nor a quote. -/
theorem loops_groupByte (hb : (bytes text)[pos]? = some b) (hescape : b ≠ code '\\')
    (hquote : ¬ (b = code '"' ∨ b = code '\''))
    (hrest : ∀ limit, text.utf8ByteSize < pos + 1 + limit →
      Runs (if b = openByte then scanGroupFrom text openByte closeByte (depth + 1) limit (pos + 1)
        else if b = closeByte then do
          let left ← minus depth 1
          if left = 0 then return (← reach text (pos + 1), true)
          else scanGroupFrom text openByte closeByte left limit (pos + 1)
        else scanGroupFrom text openByte closeByte depth limit (pos + 1)) found) :
    Loops text (scanGroupFrom text openByte closeByte depth) pos found := by
  have hlt := lt_of_byte hb
  refine loops_of_round (Nat.le_of_lt hlt) fun limit hlimit => ?_
  rw [scanGroupFrom, if_pos hlt]
  refine (runs_byteAt hb).bind ?_
  rw [if_neg hescape, if_neg hquote]
  refine (runs_note (x := .round text pos (pos + 1)) ⟨Nat.lt_succ_self pos, hlt⟩).bind ?_
  exact hrest limit (by omega)

variable (hdelimiters : Delimiters opening closing)
include hdelimiters

theorem opening_byte :
    code opening ≠ code '\\' ∧ ¬ (code opening = code '"' ∨ code opening = code '\'') := by
  have hascii := hdelimiters.opening_ascii
  rw [code_quote_iff hascii, ne_eq, code_inj hascii (by decide), hdelimiters.opening_not_quote]
  exact ⟨hdelimiters.opening_ne_escape, Bool.false_ne_true⟩

theorem closing_byte : code closing ≠ code '\\' ∧ ¬ (code closing = code '"' ∨ code closing = code '\'') ∧
    code closing ≠ code opening := by
  have hascii := hdelimiters.closing_ascii
  rw [code_quote_iff hascii, ne_eq, ne_eq, code_inj hascii (by decide),
    code_inj hascii hdelimiters.opening_ascii, hdelimiters.closing_not_quote]
  exact ⟨hdelimiters.closing_ne_escape, Bool.false_ne_true, hdelimiters.closing_ne_opening⟩

theorem loops_groupOpen (h : At text pos (opening :: cs))
    (hrest : Loops text (scanGroupFrom text (code opening) (code closing) (depth + 1)) (pos + 1) found) :
    Loops text (scanGroupFrom text (code opening) (code closing) depth) pos found := by
  obtain ⟨hescape, hquote⟩ := opening_byte hdelimiters
  refine loops_groupByte (h.byte_ascii hdelimiters.opening_ascii) hescape hquote fun limit hlimit => ?_
  rw [if_pos rfl]
  exact hrest limit hlimit

/-- The bracket that closes the group; one is open, so it can be taken from the counter. -/
theorem loops_groupClose (h : At text pos (closing :: cs)) :
    Loops text (scanGroupFrom text (code opening) (code closing) 1) pos (pos + 1, true) := by
  obtain ⟨hescape, hquote, hne⟩ := closing_byte hdelimiters
  refine loops_groupByte (h.byte_ascii hdelimiters.closing_ascii) hescape hquote fun limit _ => ?_
  rw [if_neg hne, if_pos rfl]
  refine (runs_minus (Nat.le_refl 1)).bind ?_
  rw [if_pos rfl]
  exact (runs_reach h.lt).bind (runs_pure _)

/-- A bracket that closes a group within the group. -/
theorem loops_groupInner (h : At text pos (closing :: cs))
    (hrest : Loops text (scanGroupFrom text (code opening) (code closing) (depth + 1)) (pos + 1) found) :
    Loops text (scanGroupFrom text (code opening) (code closing) (depth + 2)) pos found := by
  obtain ⟨hescape, hquote, hne⟩ := closing_byte hdelimiters
  refine loops_groupByte (h.byte_ascii hdelimiters.closing_ascii) hescape hquote fun limit hlimit => ?_
  rw [if_neg hne, if_pos rfl]
  refine (runs_minus (by omega)).bind ?_
  rw [if_neg (by omega)]
  exact hrest limit hlimit

/-- Any other character is passed over, byte by byte. -/
theorem loops_groupChar (h : At text pos (c :: cs)) (hescape : c ≠ '\\') (hquote : ¬ isQuote c = true)
    (hopening : c ≠ opening) (hclosing : c ≠ closing)
    (hrest : Loops text (scanGroupFrom text (code opening) (code closing) depth) (pos + c.utf8Size) found) :
    Loops text (scanGroupFrom text (code opening) (code closing) depth) pos found := by
  simp only [isQuote, Bool.or_eq_true, decide_eq_true_eq, not_or] at hquote
  refine Loops.pass h (fun i b hb hmem hnext => ?_) hrest
  have hplain : ¬ (b = code '"' ∨ b = code '\'') := by
    rw [not_or]
    exact ⟨ne_code_of_mem (by decide) hmem hquote.1, ne_code_of_mem (by decide) hmem hquote.2⟩
  refine loops_groupByte hb (ne_code_of_mem (by decide) hmem hescape) hplain fun limit hlimit => ?_
  rw [if_neg (ne_code_of_mem hdelimiters.opening_ascii hmem hopening),
    if_neg (ne_code_of_mem hdelimiters.closing_ascii hmem hclosing)]
  exact hnext limit hlimit

end Groups

/-- Where a scan from an offset comes to when the text is cut there, and whether it was closed. -/
def stopOf (pos : Nat) (cut : GroupCut) : Nat × Bool := (pos + width cut.taken, cut.closed)

theorem stopOf_push (pos : Nat) (c : Char) (cut : GroupCut) :
    stopOf pos (cut.push c) = stopOf (pos + c.utf8Size) cut := by
  simp only [stopOf, GroupCut.push, width_cons, Nat.add_assoc]

theorem stopOf_prepend (pos : Nat) (cs : List Char) (cut : GroupCut) :
    stopOf pos (cut.prepend cs) = stopOf (pos + width cs) cut := by
  simp only [stopOf, GroupCut.prepend, width_append, Nat.add_assoc]

theorem stopOf_end (h : At text pos []) (depth : Nat) :
    stopOf pos (cutGroupAt opening closing none depth []) = (text.utf8ByteSize, false) := by
  rw [h.size_eq]
  rfl

/-- Behind a backslash, the scan of a group comes to where it comes to behind the escape. -/
theorem loops_groupBackslash (hdelimiters : Delimiters opening closing) (h : At text pos ('\\' :: cs))
    (hrest : ∀ pos left, At text pos left → left.length ≤ cs.length →
      Loops text (scanGroupFrom text (code opening) (code closing) depth) pos
        (stopOf pos (cutGroupAt opening closing none depth left))) :
    Loops text (scanGroupFrom text (code opening) (code closing) depth) pos
      (stopOf pos (cutGroupAt opening closing none depth ('\\' :: cs))) := by
  have hbyte := h.byte_ascii (by decide)
  cases cs with
  | nil =>
    have hnext : At text (pos + 1) [] := h.next
    have halone : cutGroupAt opening closing none depth ['\\'] =
        (cutGroupAt opening closing none depth []).push '\\' :=
      cutGroupAt_alone hdelimiters.opening_ne_escape hdelimiters.closing_ne_escape depth
    rw [halone, stopOf_push]
    exact loops_groupEscape hbyte (runs_skipEscape_alone h) (Nat.lt_succ_self pos) hnext.le
      (hrest _ _ hnext (Nat.le_refl _))
  | cons d cs =>
    have hnext : At text (pos + 1 + d.utf8Size) cs := h.next.next
    have hlt : pos < pos + 1 + d.utf8Size := by omega
    rw [cutGroupAt, stopOf_push, stopOf_push]
    exact loops_groupEscape hbyte (runs_skipEscape h) hlt hnext.le (hrest _ _ hnext (Nat.le_succ _))

/-- Within a group the scan comes to where the group is cut off, as long as a bracket is open. -/
theorem loops_scanGroupFrom (hdelimiters : Delimiters opening closing) (h : At text pos cs) :
    Loops text (scanGroupFrom text (code opening) (code closing) (depth + 1)) pos
      (stopOf pos (cutGroupAt opening closing none (depth + 1) cs)) := by
  -- a string is skipped as a whole, so the induction is on the length of what is left
  induction hlength : cs.length using Nat.strong_induction_on generalizing cs pos depth with
  | _ n ih =>
  subst hlength
  cases cs with
  | nil =>
    rw [stopOf_end h, h.eq_size]
    exact loops_groupEnd
  | cons c cs =>
    have hsmaller : cs.length < (c :: cs).length := Nat.lt_succ_self _
    by_cases hescape : c = '\\'
    · subst hescape
      exact loops_groupBackslash hdelimiters h fun pos left hleft hle =>
        ih _ (Nat.lt_of_le_of_lt hle hsmaller) hleft rfl
    have halone : ∀ d rest, c = '\\' → cs = d :: rest → False := fun _ _ hc _ => hescape hc
    by_cases hquote : isQuote c = true
    · have hleft : (cutString c cs).2.length < (c :: cs).length := by
        have hwhole := congrArg List.length (cutString_append c cs)
        rw [List.length_append] at hwhole
        omega
      rw [cutGroupAt_outside halone, if_pos hquote, stopOf_push, cutGroupAt_string, stopOf_prepend,
        ascii_of_isQuote hquote]
      exact loops_groupString hquote h (ih _ hleft (at_cutString hquote h) rfl)
    by_cases hopening : c = opening
    · subst hopening
      have hnext : At text (pos + 1) cs := hdelimiters.opening_ascii ▸ h.next
      rw [cutGroupAt_outside halone, if_neg hquote, if_pos rfl, stopOf_push, hdelimiters.opening_ascii]
      exact loops_groupOpen hdelimiters h (ih _ hsmaller hnext rfl)
    by_cases hclosing : c = closing
    · subst hclosing
      have hnext : At text (pos + 1) cs := hdelimiters.closing_ascii ▸ h.next
      rw [cutGroupAt_outside halone, if_neg hquote, if_neg hopening, if_pos rfl]
      cases depth with
      | zero =>
        have hstop : stopOf pos ⟨[c], cs, true⟩ = (pos + 1, true) := by
          rw [stopOf, width_cons, width_nil, hdelimiters.closing_ascii]
        rw [if_pos (Nat.le_refl 1), hstop]
        exact loops_groupClose hdelimiters h
      | succ depth =>
        rw [if_neg (by omega), stopOf_push, hdelimiters.closing_ascii, Nat.add_sub_cancel]
        exact loops_groupInner hdelimiters h (ih _ hsmaller hnext rfl)
    · rw [cutGroupAt_outside halone, if_neg hquote, if_neg hopening, if_neg hclosing, stopOf_push]
      exact loops_groupChar hdelimiters h hescape hquote hopening hclosing (ih _ hsmaller h.next rfl)

/-- The scan of a group comes to where the group is cut off. -/
theorem loops_scanGroup (hdelimiters : Delimiters opening closing) (h : At text pos (opening :: cs)) :
    Loops text (scanGroup text (code opening) (code closing)) pos
      (stopOf pos (cutGroup opening closing (opening :: cs))) := by
  have hascii := hdelimiters.opening_ascii
  have hnext : At text (pos + 1) cs := hascii ▸ h.next
  rw [cutGroup_cons _ _ hdelimiters.opening_not_quote hdelimiters.opening_ne_escape, stopOf_push, hascii]
  exact loops_groupOpen hdelimiters h (loops_scanGroupFrom hdelimiters hnext)

/-! ### Group texts -/

theorem loops_scanGroup_append (hdelimiters : Delimiters opening closing) (before : String) {tail : String}
    (hopening : ∃ inner, tail.toList = opening :: inner) {cut : GroupCut}
    (hcut : cutGroup opening closing tail.toList = cut) :
    Loops (before ++ tail) (scanGroup (before ++ tail) (code opening) (code closing))
      before.utf8ByteSize (stopOf before.utf8ByteSize cut) := by
  obtain ⟨inner, htail⟩ := hopening
  have hat := at_append before tail
  rw [htail] at hat hcut
  rw [← hcut]
  exact loops_scanGroup hdelimiters hat

theorem stopOf_toList (before taken : String) (left : List Char) (closed : Bool) :
    stopOf before.utf8ByteSize ⟨taken.toList, left, closed⟩ = ((before ++ taken).utf8ByteSize, closed) := by
  rw [stopOf, width_toList, String.utf8ByteSize_append]

/-- In a text that goes on with a group text, the scan comes to the end of the group text and finds it
closed.  In one that ends within the group text, it comes to the end and finds it open.  So does the cut
by characters. -/
theorem scanGroup_groupText (hdelimiters : Delimiters opening closing) {group : String}
    (hgroup : GroupText opening closing group.toList) (before : String) :
    (∀ rest : String,
      Loops (before ++ (group ++ rest)) (scanGroup (before ++ (group ++ rest)) (code opening) (code closing))
        before.utf8ByteSize ((before ++ group).utf8ByteSize, true) ∧
      cutGroup opening closing (group ++ rest).toList = ⟨group.toList, rest.toList, true⟩) ∧
    ∀ short missing : String, group = short ++ missing → short ≠ "" → missing ≠ "" →
      Loops (before ++ short) (scanGroup (before ++ short) (code opening) (code closing))
        before.utf8ByteSize ((before ++ short).utf8ByteSize, false) ∧
      cutGroup opening closing short.toList = ⟨short.toList, [], false⟩ := by
  constructor
  · intro rest
    have hcut : cutGroup opening closing (group ++ rest).toList = ⟨group.toList, rest.toList, true⟩ := by
      rw [String.toList_append]
      exact cutGroup_groupText hdelimiters hgroup rest.toList
    have hopening : ∃ inner, (group ++ rest).toList = opening :: inner := by
      obtain ⟨inner, hinner⟩ := hgroup.exists_cons
      exact ⟨inner ++ rest.toList, by rw [String.toList_append, hinner, List.cons_append]⟩
    have hscan := loops_scanGroup_append hdelimiters before hopening hcut
    rw [stopOf_toList] at hscan
    exact ⟨hscan, hcut⟩
  · rintro short missing rfl hshort hmissing
    rw [String.toList_append] at hgroup
    have hcut := cutGroup_cutShort hdelimiters hgroup (mt String.toList_eq_nil_iff.mp hmissing)
    have hopening : ∃ inner, short.toList = opening :: inner := by
      obtain ⟨inner, hinner⟩ := hgroup.exists_cons
      rcases List.append_eq_cons_iff.mp hinner with ⟨hnil, -⟩ | ⟨inner, hcons, -⟩
      · exact absurd (String.toList_eq_nil_iff.mp hnil) hshort
      · exact ⟨inner, hcons⟩
    have hscan := loops_scanGroup_append hdelimiters before hopening hcut
    rw [stopOf_toList] at hscan
    exact ⟨hscan, hcut⟩

/-- A group in a group, which holds a string and an escape that hide brackets. -/
theorem scanGroup_nested :
    GroupText '(' ')' "(a(')'\\)é)b)".toList ∧
      Runs (scanGroup ("p:is" ++ ("(a(')'\\)é)b)" ++ ")>q")) (code '(') (code ')') 20 4) (17, true) ∧
      Runs (scanGroup ("p:is" ++ "(a(')'\\") (code '(') (code ')') 20 4) (11, false) := by
  have hstring : StringEnd '\'' [')', '\''] := .char (by decide) (by decide) .close
  have hbody : Items '(' ')' ['\'', ')', '\'', '\\', ')', 'é'] :=
    @Items.string _ _ '\'' rfl [')', '\''] _ hstring
      (.escape ')' (.char rfl (by decide) (by decide) (by decide) .nil))
  have hinner : GroupText '(' ')' ['(', '\'', ')', '\'', '\\', ')', 'é', ')'] := .brackets hbody
  have houter : Items '(' ')' ['a', '(', '\'', ')', '\'', '\\', ')', 'é', ')', 'b'] :=
    .char rfl (by decide) (by decide) (by decide)
      (.group hinner (.char rfl (by decide) (by decide) (by decide) .nil))
  have hgroup : GroupText '(' ')' "(a(')'\\)é)b)".toList := GroupText.brackets houter
  obtain ⟨hwhole, hshort⟩ := scanGroup_groupText delimiters_round hgroup "p:is"
  exact ⟨hgroup, (hwhole ")>q").1 20 (by decide),
    (hshort "(a(')'\\" ")é)b)" (by decide) (by decide) (by decide)).1 20 (by decide)⟩

end Wayfind.Selector.Cursor
