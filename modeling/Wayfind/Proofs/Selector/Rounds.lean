/-
Reading by offsets goes well.

Each round of the reader begins between two characters and reads the piece that starts there:
what it adds to the draft is what the piece says (`Draft.add`), and it ends behind the source of the
piece (`takes_turn`), which is never empty.  So the rounds are the pieces of the text, one after the
other (`loops_run`), and the draft at their end is what `parse` gives (`finish_pieces`).  No cut,
no look at a byte and no subtraction on the way is at fault, and the reading ends
(`read_allowed`).
-/
import Wayfind.Proofs.Selector.Reading
import Wayfind.Proofs.Selector.Scanning

namespace Wayfind.Selector.Cursor

variable {text : String} {limit pos : Nat} {c : Char} {cs rest : List Char}

/-! ### First bytes and names -/

theorem ofUInt8_code (hc : c.utf8Size = 1) : Char.ofUInt8 (code c) = c := by
  apply Char.toNat_inj.mp
  rw [← toNat_code hc]
  rfl

/-- Whether a character is one of some ASCII characters can be seen from its first byte. -/
theorem lead_eq {p : Char → Bool} (hp : ∀ c, p c = true → c.utf8Size = 1) {b : UInt8} {more : List UInt8}
    (h : String.utf8EncodeChar c = b :: more) : p (Char.ofUInt8 b) = p c := by
  by_cases hc : c.utf8Size = 1
  · rw [encode_of_ascii hc, List.cons.injEq] at h
    rw [← h.1, ofUInt8_code hc]
  · have hlarge : 128 ≤ b.toNat := le_of_mem_encode hc (by rw [h]; exact List.mem_cons_self)
    have hb : (Char.ofUInt8 b).utf8Size ≠ 1 := by
      rw [ne_eq, Char.utf8Size_eq_one_iff, UInt32.le_iff_toNat_le]
      have hval : (Char.ofUInt8 b).val.toNat = b.toNat := rfl
      have hbound : (127 : UInt32).toNat = 127 := rfl
      omega
    rw [Bool.eq_false_iff.mpr (mt (hp c) hc), Bool.eq_false_iff.mpr (mt (hp _) hb)]

/-- The byte at an offset is the first of the character there. -/
theorem exists_lead (h : At text pos (c :: rest)) :
    ∃ b more, (bytes text)[pos]? = some b ∧ String.utf8EncodeChar c = b :: more := by
  have hbyte := h.byte_eq (i := 0) c.utf8Size_pos
  cases hencode : String.utf8EncodeChar c with
  | nil => exact absurd hencode String.utf8EncodeChar_ne_nil
  | cons b more =>
    rw [hencode] at hbyte
    exact ⟨b, more, hbyte, rfl⟩

/-- The characters of a kind at the start of a text are counted by their bytes. -/
theorem countBytes_ofList {p : Char → Bool} (hp : ∀ c, p c = true → c.utf8Size = 1) (cs : List Char) :
    Reader.countBytes p (String.ofList cs) = width (cs.takeWhile p) := by
  rw [Reader.countBytes, bytes_ofList]
  induction cs with
  | nil => rfl
  | cons c cs ih =>
    cases hencode : String.utf8EncodeChar c with
    | nil => exact absurd hencode String.utf8EncodeChar_ne_nil
    | cons b more =>
      have hlead := lead_eq hp hencode
      rw [List.flatMap_cons, hencode, List.cons_append]
      by_cases hc : p c = true
      · have hascii := hp c hc
        rw [encode_of_ascii hascii, List.cons.injEq] at hencode
        rw [← hencode.2, List.nil_append,
          List.takeWhile_cons_of_pos (p := fun b => p (Char.ofUInt8 b)) (hlead.trans hc),
          List.length_cons, ih, List.takeWhile_cons_of_pos hc, width_cons, hascii, Nat.add_comm]
      · rw [List.takeWhile_cons_of_neg (p := fun b => p (Char.ofUInt8 b)) (by rw [hlead]; exact hc),
          List.takeWhile_cons_of_neg hc]
        rfl

theorem ascii_of_isAlphanum {c : Char} (hc : c.isAlphanum = true) : c.utf8Size = 1 := by
  have hascii : ∀ bound : UInt32, bound ≤ 127 → c.val ≤ bound → c.utf8Size = 1 :=
    fun bound hbound hle => Char.utf8Size_eq_one_iff.mpr (UInt32.le_trans hle hbound)
  rcases Bool.or_eq_true_iff.mp hc with halpha | hdigit
  · rcases Bool.or_eq_true_iff.mp halpha with hupper | hlower
    · exact hascii 'Z'.val (by decide) (of_decide_eq_true hupper).2
    · exact hascii 'z'.val (by decide) (of_decide_eq_true (Bool.and_eq_true_iff.mp hlower).2)
  · exact hascii '9'.val (by decide) (of_decide_eq_true (Bool.and_eq_true_iff.mp hdigit).2)

theorem ascii_of_isIdentChar {c : Char} (hc : Piece.isIdentChar c = true) : c.utf8Size = 1 := by
  simp only [Piece.isIdentChar, Bool.or_eq_true, decide_eq_true_eq] at hc
  rcases hc with (halphanum | rfl) | rfl
  · exact ascii_of_isAlphanum halphanum
  · decide
  · decide

theorem ascii_of_isNameChar {c : Char} (hc : Piece.isNameChar c = true) : c.utf8Size = 1 := by
  apply ascii_of_isIdentChar
  rw [Piece.isNameChar] at hc
  rw [Piece.isIdentChar, hc, Bool.true_or]

/-! ### Arguments -/

/-- A quote alone is too short to be quoted. -/
theorem quoted_iff (q : Char) (cs : List Char) :
    2 ≤ (String.ofList (q :: cs)).utf8ByteSize ∧ isQuote q = true ∧ (q :: cs).getLast? = some q ↔
      isQuote q = true ∧ cs.getLast? = some q := by
  have hsize : (String.ofList (q :: cs)).utf8ByteSize = q.utf8Size + width cs := width_cons q cs
  rw [hsize]
  cases cs with
  | nil =>
    constructor
    · rintro ⟨htwo, hquote, -⟩
      rw [ascii_of_isQuote hquote, width_nil] at htwo
      omega
    · rintro ⟨-, hlast⟩
      exact absurd hlast.symm (Option.some_ne_none q)
  | cons d cs =>
    have hq := q.utf8Size_pos
    have hd := d.utf8Size_pos
    rw [List.getLast?_cons_cons, width_cons]
    constructor
    · exact And.right
    · intro hquoted
      exact ⟨by omega, hquoted⟩

/-- Outer quotes are stripped where the list has them. -/
theorem runs_withoutQuotes (cs : List Char) :
    Runs (withoutQuotes (String.ofList cs)) (String.ofList (stripQuotes cs)) := by
  cases cs with
  | nil => exact runs_pure _
  | cons q cs =>
    unfold withoutQuotes
    simp only [String.toList_ofList, List.head?_cons, quoted_iff]
    by_cases hquoted : isQuote q = true ∧ cs.getLast? = some q
    · obtain ⟨hquote, hlast⟩ := hquoted
      obtain ⟨inner, rfl⟩ := List.getLast?_eq_some_iff.mp hlast
      have hascii := ascii_of_isQuote hquote
      have hinner : At (String.ofList (q :: (inner ++ [q]))) 1 (inner ++ [q]) := by
        have hzero := at_zero (String.ofList (q :: (inner ++ [q])))
        rw [String.toList_ofList] at hzero
        have hnext := hzero.next
        rwa [hascii] at hnext
      have hstop : (String.ofList (q :: (inner ++ [q]))).utf8ByteSize - 1 = 1 + width inner := by
        rw [hinner.size_eq, width_append, width_cons, width_nil, hascii]
        omega
      have hstrip : stripQuotes (q :: (inner ++ [q])) = inner := by simp [stripQuotes, hquote]
      have hone : 1 ≤ (String.ofList (q :: (inner ++ [q]))).utf8ByteSize := hinner.le
      rw [if_pos ⟨hquote, hlast⟩, hstrip]
      refine (runs_minus hone).bind ?_
      rw [hstop]
      exact runs_slice hinner
    · have hstrip : stripQuotes (q :: cs) = q :: cs := by
        rw [stripQuotes, if_neg]
        simpa using hquoted
      rw [if_neg hquoted, hstrip]
      exact runs_pure _

theorem runs_unquote (cs : List Char) :
    Runs (unquote (String.ofList cs)) (String.ofList (Selector.unquote cs)) := by
  refine (runs_withoutQuotes cs).bind ?_
  rw [String.toList_ofList]
  exact runs_pure _

theorem opensArgument_nil (h : At text pos []) : Reader.opensArgument text pos = false := by
  have hnone : (bytes text)[pos]? = none := by
    have hdrop := h.drop_bytes
    rw [List.getElem?_eq_none_iff]
    exact List.drop_eq_nil_iff.mp hdrop
  rw [Reader.opensArgument, hnone]
  rfl

theorem opensArgument_cons (h : At text pos (c :: rest)) :
    Reader.opensArgument text pos = (c == '(') := by
  obtain ⟨b, more, hbyte, hencode⟩ := exists_lead h
  rw [Reader.opensArgument, hbyte]
  by_cases hc : c = '('
  · subst hc
    have hcode : b = code '(' := (List.cons.inj (hencode.symm.trans (encode_of_ascii rfl))).1
    rw [hcode]
    rfl
  · have hne : b ≠ code '(' := ne_code_of_mem rfl (by rw [hencode]; exact List.mem_cons_self) hc
    rw [beq_eq_false_iff_ne.mpr hc, beq_eq_false_iff_ne]
    exact fun hsome => hne (Option.some.inj hsome)

theorem cutArgument_other (hc : c ≠ '(') (cs : List Char) :
    Piece.cutArgument (c :: cs) = ⟨[], c :: cs, false⟩ := by
  unfold Piece.cutArgument
  split
  · rename_i heq
    exact absurd (List.cons.inj heq).1 hc
  · rfl

/-- An argument opens where a text with an argument begins. -/
theorem argument_cases (h : At text pos cs) :
    Reader.opensArgument text pos = false ∧ Piece.cutArgument cs = ⟨[], cs, false⟩ ∨
      Reader.opensArgument text pos = true ∧ ∃ inner, cs = '(' :: inner := by
  cases cs with
  | nil => exact .inl ⟨opensArgument_nil h, rfl⟩
  | cons c cs =>
    by_cases hc : c = '('
    · subst hc
      exact .inr ⟨opensArgument_cons h, cs, rfl⟩
    · refine .inl ⟨?_, cutArgument_other hc cs⟩
      rw [opensArgument_cons h, beq_eq_false_iff_ne]
      exact hc

/-- The value is what stands between the brackets. -/
theorem runs_argumentValue {inner : List Char} (h : At text pos (inner ++ rest)) (stop : Nat) :
    Runs (do
      let raw ← slice text pos (pos + width inner)
      let value ← unquote (String.ofList (Text.trim raw.toList))
      return (stop, value)) (stop, String.ofList (Selector.unquote (Text.trim inner))) := by
  refine (runs_slice h).bind ?_
  rw [String.toList_ofList]
  exact (runs_unquote _).bind (runs_pure _)

/-- The argument of a pseudo node is cut off where the brackets say, and its value is theirs. -/
theorem runs_argument (hlimit : text.utf8ByteSize < pos + limit) (h : At text pos cs) :
    Runs (Reader.argument text limit pos) (pos + width (Piece.cutArgument cs).taken,
      String.ofList (argumentValue (Piece.cutArgument cs).taken (Piece.cutArgument cs).closed)) := by
  unfold Reader.argument
  rcases argument_cases h with ⟨hopens, hcut⟩ | ⟨hopens, inner, rfl⟩
  · rw [hopens, hcut]
    exact runs_pure _
  · have hnext : At text (pos + 1) inner := h.next
    have hscan := loops_scanGroup delimiters_round h limit hlimit
    have hargument : Piece.cutArgument ('(' :: inner) = cutGroup '(' ')' ('(' :: inner) := rfl
    rw [hargument, if_pos hopens]
    rcases cutGroup_cases delimiters_round inner with ⟨body, left, rfl, hcut⟩ | hcut
    · rw [hcut] at hscan ⊢
      have hvalue : argumentValue ('(' :: (body ++ [')'])) true = Selector.unquote (Text.trim body) := by
        simp [argumentValue]
      have hstop : pos + width ('(' :: (body ++ [')'])) - 1 = pos + 1 + width body := by
        have hopen : '('.utf8Size = 1 := rfl
        have hclose : ')'.utf8Size = 1 := rfl
        rw [width_cons, width_append, width_cons, width_nil, hopen, hclose]
        omega
      have hone : 1 ≤ pos + width ('(' :: (body ++ [')'])) := by omega
      rw [hvalue]
      refine hscan.bind ((runs_minus hone).bind ?_)
      rw [hstop]
      exact runs_argumentValue hnext _
    · rw [hcut] at hscan ⊢
      have hend : pos + width ('(' :: inner) = pos + 1 + width inner := by
        rw [width_cons, Nat.add_assoc]
        rfl
      have hall : At text (pos + 1) (inner ++ []) := by rwa [List.append_nil]
      refine hscan.bind ((runs_pure _).bind ?_)
      rw [hend]
      exact runs_argumentValue hall _

/-- The argument of a pseudo-class is cut off in the same place. -/
theorem runs_argumentEnd (hlimit : text.utf8ByteSize < pos + limit) (h : At text pos cs) :
    Runs (Reader.argumentEnd text limit pos) (pos + width (Piece.cutArgument cs).taken) := by
  unfold Reader.argumentEnd
  rcases argument_cases h with ⟨hopens, hcut⟩ | ⟨hopens, inner, rfl⟩
  · rw [hopens, hcut]
    exact runs_pure _
  · rw [if_pos hopens]
    exact (loops_scanGroup delimiters_round h limit hlimit).bind (runs_pure _)

/-! ### Pieces -/

/-- What a piece adds to what has been read. -/
def Draft.add (d : Draft) : Piece → Draft
  | .css text => d.write (String.ofList text)
  | .pseudoClass text => d.notePseudoClass.write (String.ofList text)
  | .pseudo name argument closed =>
    d.addPseudo ⟨String.ofList name, String.ofList (argumentValue argument closed)⟩
  | .combinator c _ => d.combine c
  | .comma _ => d.closeComplex

/-- The reader takes the piece the text starts with, and stands behind it. -/
def Takes (m : Reading Reader) (pos : Nat) (d : Draft) (p : Piece) : Prop :=
  Runs m ⟨pos + width p.source, d.add p⟩

theorem runs_take (h : At text pos (cs ++ rest)) (d : Draft) :
    Runs (Reader.take text (pos + width cs) ⟨pos, d⟩) ⟨pos + width cs, d.write (String.ofList cs)⟩ :=
  (runs_slice h).bind (runs_pure _)

theorem runs_skipBlanks (h : At text pos cs) :
    Runs (Reader.skipBlanks text pos) (pos + width (Piece.cutBlanks cs).1) := by
  have hsplit := congrArg width (Piece.cutBlanks_append cs)
  have hmove : At text (pos + width (Piece.cutBlanks cs).1) (Piece.cutBlanks cs).2 := by
    rw [← Piece.cutBlanks_append cs] at h
    exact h.move
  rw [width_append] at hsplit
  refine (runs_tail h).bind ?_
  rw [String.toList_ofList]
  have hwhole : (String.ofList cs).utf8ByteSize = width cs := rfl
  have hrest : (String.ofList (Text.trimStart cs)).utf8ByteSize = width (Piece.cutBlanks cs).2 := rfl
  have hskipped : (String.ofList cs).utf8ByteSize - (String.ofList (Text.trimStart cs)).utf8ByteSize =
      width (Piece.cutBlanks cs).1 := by omega
  refine (runs_minus (by omega)).bind ?_
  rw [hskipped]
  exact runs_reach hmove.le

theorem takes_combinator (c : Combinator) (h : At text pos (c.text.toList ++ cs)) (d : Draft) :
    Takes (Reader.combinator text c ⟨pos, d⟩) pos d (Piece.cutCombinator c cs).1 := by
  have hskip := runs_skipBlanks h.move
  rw [width_toList, Nat.add_assoc] at hskip
  have hsource : width (Piece.cutCombinator c cs).1.source =
      c.text.utf8ByteSize + width (Piece.cutBlanks cs).1 := by
    rw [Piece.cutCombinator, Piece.source, width_append, width_toList]
  rw [Takes, hsource]
  exact hskip.bind (runs_pure _)

theorem takes_comma (h : At text pos (',' :: cs)) (d : Draft) :
    Takes (Reader.comma text ⟨pos, d⟩) pos d (.comma (Piece.cutBlanks cs).1) := by
  have hnext : At text (pos + 1) cs := h.next
  have hskip := runs_skipBlanks hnext
  have hsource : pos + width (Piece.comma (Piece.cutBlanks cs).1).source =
      pos + 1 + width (Piece.cutBlanks cs).1 := by
    rw [Piece.source, width_cons, Nat.add_assoc]
    rfl
  rw [Takes, hsource]
  exact hskip.bind (runs_pure _)

/-- A stretch of CSS is taken as it stands. -/
theorem takes_css (css : List Char) (h : At text pos (css ++ rest)) {stop : Nat}
    (hstop : stop = pos + width css) (d : Draft) :
    Takes (Reader.take text stop ⟨pos, d⟩) pos d (.css css) := by
  subst hstop
  exact runs_take h d

theorem takes_pseudo (hlimit : text.utf8ByteSize < pos + limit) (h : At text pos (Piece.pseudoMark ++ cs))
    (d : Draft) : Takes (Reader.pseudo text limit ⟨pos, d⟩) pos d (Piece.cutPseudo cs).1 := by
  have hmark : width Piece.pseudoMark = Piece.pseudoMark.length := rfl
  have hname : At text (pos + Piece.pseudoMark.length) cs := by
    rw [← hmark]
    exact h.move
  unfold Reader.pseudo
  refine (runs_tail hname).bind ?_
  rw [countBytes_ofList (p := Piece.isNameChar) fun _ => ascii_of_isNameChar]
  by_cases hnone : cs.takeWhile Piece.isNameChar = []
  · rw [hnone, width_nil, if_pos rfl, Piece.cutPseudo, if_pos hnone]
    exact takes_css _ h (by rw [hmark]) d
  · have hpos := width_pos hnone
    rw [if_neg (by omega), Piece.cutPseudo, if_neg hnone]
    have hsplit : At text (pos + Piece.pseudoMark.length)
        (cs.takeWhile Piece.isNameChar ++ cs.dropWhile Piece.isNameChar) := by
      rwa [List.takeWhile_append_dropWhile]
    refine (runs_slice hsplit).bind ((runs_argument (by omega) hsplit.move).bind ?_)
    have hsource : ∀ argument closed,
        pos + width (Piece.pseudo (cs.takeWhile Piece.isNameChar) argument closed).source =
          pos + Piece.pseudoMark.length + width (cs.takeWhile Piece.isNameChar) + width argument := by
      intro argument closed
      rw [Piece.source, width_append, width_append, hmark]
      omega
    rw [hsource]
    exact runs_pure _

theorem takes_pseudoClass (hlimit : text.utf8ByteSize < pos + limit) (h : At text pos (':' :: cs))
    (d : Draft) : Takes (Reader.pseudoClass text limit ⟨pos, d⟩) pos d (Piece.cutPseudoClass cs).1 := by
  have hname : At text (pos + 1) cs := h.next
  unfold Reader.pseudoClass
  refine (runs_tail hname).bind ?_
  rw [countBytes_ofList (p := Piece.isIdentChar) fun _ => ascii_of_isIdentChar]
  by_cases hnone : cs.takeWhile Piece.isIdentChar = []
  · rw [hnone, width_nil, if_pos rfl, Piece.cutPseudoClass, if_pos hnone]
    exact takes_css [':'] h rfl d
  · have hpos := width_pos hnone
    rw [if_neg (by omega), Piece.cutPseudoClass, if_neg hnone]
    have hsplit : At text (pos + 1) (cs.takeWhile Piece.isIdentChar ++ cs.dropWhile Piece.isIdentChar) := by
      rwa [List.takeWhile_append_dropWhile]
    refine (runs_argumentEnd (by omega) hsplit.move).bind ?_
    have hwhole : At text pos (':' :: (cs.takeWhile Piece.isIdentChar ++
        (Piece.cutArgument (cs.dropWhile Piece.isIdentChar)).taken) ++
          (Piece.cutArgument (cs.dropWhile Piece.isIdentChar)).left) := by
      rw [List.cons_append, List.append_assoc, Piece.cutArgument_append, List.takeWhile_append_dropWhile]
      exact h
    have htake := runs_take hwhole d.notePseudoClass
    have hstop : pos + width (':' :: (cs.takeWhile Piece.isIdentChar ++
        (Piece.cutArgument (cs.dropWhile Piece.isIdentChar)).taken)) =
          pos + 1 + width (cs.takeWhile Piece.isIdentChar) +
            width (Piece.cutArgument (cs.dropWhile Piece.isIdentChar)).taken := by
      have hcolon : ':'.utf8Size = 1 := rfl
      rw [width_cons, width_append, hcolon]
      omega
    rw [hstop] at htake
    rw [Piece.source, hstop]
    exact htake

/-! ### Rounds -/

theorem takes_string {quote : Char} (hquote : isQuote quote = true)
    (hlimit : text.utf8ByteSize < pos + limit) (h : At text pos (quote :: cs)) (d : Draft) :
    Takes (do Reader.take text (← scanString text limit pos) ⟨pos, d⟩) pos d
      (.css (quote :: (cutString quote cs).1)) := by
  refine (runs_scanString hquote h (by omega)).bind ?_
  rw [← cutString_append quote cs] at h
  refine takes_css (quote :: (cutString quote cs).1) h ?_ d
  rw [width_cons, ascii_of_isQuote hquote, Nat.add_assoc]

theorem takes_group {opening closing : Char} (hdelimiters : Delimiters opening closing)
    (hlimit : text.utf8ByteSize < pos + limit) (h : At text pos (opening :: cs)) (d : Draft) :
    Takes (do Reader.take text (← scanGroup text (code opening) (code closing) limit pos).1 ⟨pos, d⟩) pos d
      (Piece.cutCssGroup opening closing (opening :: cs)).1 := by
  refine (loops_scanGroup hdelimiters h limit hlimit).bind ?_
  rw [← cutGroup_append opening closing (opening :: cs)] at h
  exact takes_css _ h rfl d

theorem takes_escape (h : At text pos ('\\' :: cs)) (d : Draft) :
    Takes (do Reader.take text (← skipEscape text pos) ⟨pos, d⟩) pos d (Piece.next '\\' cs).1 := by
  cases cs with
  | nil =>
    have hall : At text pos (['\\'] ++ []) := h
    exact (runs_skipEscape_alone h).bind (takes_css ['\\'] hall rfl d)
  | cons e cs =>
    refine (runs_skipEscape h).bind (takes_css ['\\', e] h ?_ d)
    rw [width_cons, width_cons, width_nil]
    exact Nat.add_assoc pos 1 e.utf8Size

theorem takes_char (h : At text pos (c :: cs)) (d : Draft) :
    Takes (do Reader.take text (← nextChar text pos) ⟨pos, d⟩) pos d (.css [c]) := by
  refine (runs_nextChar h).bind (takes_css [c] h ?_ d)
  rw [width_cons, width_nil, Nat.add_zero]

theorem startsWith_iff (start cs : List Char) :
    Reader.startsWith (String.ofList cs) start = true ↔ start <+: cs := by
  rw [Reader.startsWith, String.toList_ofList, List.isPrefixOf_iff_prefix]

/-- Behind a `>` stands what tells combinators apart. -/
theorem takes_greater (h : At text pos ('>' :: cs)) (d : Draft) :
    Takes (Reader.turn text limit ⟨pos, d⟩ (code '>')) pos d (Piece.next '>' cs).1 := by
  refine (runs_tail h).bind ?_
  by_cases hchild : Combinator.child.text.toList <+: '>' :: cs
  · rw [if_pos ((startsWith_iff _ _).mpr hchild)]
    obtain ⟨rest, hrest⟩ := hchild
    rw [← hrest] at h
    obtain rfl : '>' :: '>' :: '>' :: rest = cs := (List.cons.inj hrest).2
    exact takes_combinator .child h d
  rw [if_neg (mt (startsWith_iff _ _).mp hchild)]
  by_cases hdescendant : Combinator.descendant.text.toList <+: '>' :: cs
  · rw [if_pos ((startsWith_iff _ _).mpr hdescendant)]
    obtain ⟨rest, hrest⟩ := hdescendant
    rw [← hrest] at h
    obtain rfl : '>' :: '>' :: rest = cs := (List.cons.inj hrest).2
    have hnext : ¬ ['>'] <+: rest := by
      rintro ⟨more, rfl⟩
      exact hchild ⟨more, rfl⟩
    rw [next_descendant hnext]
    exact takes_combinator .descendant h d
  · rw [if_neg (mt (startsWith_iff _ _).mp hdescendant)]
    have hnext : ¬ ['>', '>'] <+: cs := by
      rintro ⟨more, rfl⟩
      exact hdescendant ⟨more, rfl⟩
    rw [next_greater hnext]
    exact takes_char h d

/-- Behind a colon stands what tells pseudo nodes, pseudo-elements and pseudo-classes apart. -/
theorem takes_colon (hlimit : text.utf8ByteSize < pos + limit) (h : At text pos (':' :: cs)) (d : Draft) :
    Takes (Reader.turn text limit ⟨pos, d⟩ (code ':')) pos d (Piece.next ':' cs).1 := by
  refine (runs_tail h).bind ?_
  by_cases hmark : Piece.pseudoMark <+: ':' :: cs
  · rw [if_pos ((startsWith_iff _ _).mpr hmark)]
    obtain ⟨rest, hrest⟩ := hmark
    rw [← hrest] at h
    obtain rfl : ':' :: '-' :: 'p' :: '-' :: rest = cs := (List.cons.inj hrest).2
    exact takes_pseudo hlimit h d
  rw [if_neg (mt (startsWith_iff _ _).mp hmark)]
  by_cases hcolons : [':', ':'] <+: ':' :: cs
  · rw [if_pos ((startsWith_iff _ _).mpr hcolons)]
    obtain ⟨rest, hrest⟩ := hcolons
    obtain rfl : ':' :: rest = cs := (List.cons.inj hrest).2
    have hnext : ¬ ['-', 'p', '-'] <+: rest := by
      rintro ⟨more, rfl⟩
      exact hmark ⟨more, rfl⟩
    rw [next_colons hnext]
    exact takes_css [':', ':'] h rfl d
  · rw [if_neg (mt (startsWith_iff _ _).mp hcolons)]
    have hnext : ¬ [':'] <+: cs := by
      rintro ⟨more, rfl⟩
      exact hcolons ⟨more, rfl⟩
    rw [next_colon hnext]
    exact takes_pseudoClass hlimit h d

/-- The characters at which the reader does not just go on to the next. -/
def specials : List Char := openers ++ ['>', ':', ',']

theorem special_iff : c ∈ specials ↔
    c = '"' ∨ c = '\'' ∨ c = '[' ∨ c = '(' ∨ c = '\\' ∨ c = '>' ∨ c = ':' ∨ c = ',' := by
  simp [specials, openers]

theorem ascii_of_special (hc : c ∈ specials) : c.utf8Size = 1 := by
  rcases special_iff.mp hc with rfl | rfl | rfl | rfl | rfl | rfl | rfl | rfl <;> rfl

theorem turn_other {r : Reader} {b : UInt8} (hb : Char.ofUInt8 b ∉ specials) :
    Reader.turn text limit r b = (do r.take text (← nextChar text r.pos)) := by
  unfold Reader.turn
  split <;> simp_all [specials, openers]

/-- What stands at an offset is known by its first byte, and taken. -/
theorem takes_turn (hlimit : text.utf8ByteSize < pos + limit) (h : At text pos (c :: rest)) (d : Draft) :
    ∃ b, (bytes text)[pos]? = some b ∧
      Takes (Reader.turn text limit ⟨pos, d⟩ b) pos d (Piece.next c rest).1 := by
  by_cases hspecial : c ∈ specials
  · refine ⟨code c, h.byte_ascii (ascii_of_special hspecial), ?_⟩
    rcases special_iff.mp hspecial with rfl | rfl | rfl | rfl | rfl | rfl | rfl | rfl
    · exact takes_string rfl hlimit h d
    · exact takes_string rfl hlimit h d
    · exact takes_group delimiters_square hlimit h d
    · exact takes_group delimiters_round hlimit h d
    · exact takes_escape h d
    · exact takes_greater h d
    · exact takes_colon hlimit h d
    · exact takes_comma h d
  · obtain ⟨b, more, hbyte, hencode⟩ := exists_lead h
    have hascii : ∀ c, decide (c ∈ specials) = true → c.utf8Size = 1 :=
      fun c hc => ascii_of_special (of_decide_eq_true hc)
    have hother : Char.ofUInt8 b ∉ specials := by
      rwa [decide_eq_decide.mp (lead_eq hascii hencode)]
    refine ⟨b, hbyte, ?_⟩
    rw [specials, List.mem_append, not_or] at hspecial
    rw [turn_other hother, next_other hspecial.1 hspecial.2]
    exact takes_char h d

/-- A round begins between characters of the text, and so does the next one, further on. -/
theorem At.behind (h : At text pos (c :: rest)) :
    At text (pos + width (Piece.next c rest).1.source) (Piece.next c rest).2 := by
  rw [← Piece.next_append c rest] at h
  exact h.move

/-- The rounds of the reader take the pieces of the text, one after the other. -/
theorem loops_run (h : At text pos cs) (d : Draft) :
    Loops text (fun limit pos => Reader.run text limit ⟨pos, d⟩) pos
      ⟨text.utf8ByteSize, (pieces cs).foldl Draft.add d⟩ := by
  fun_induction pieces cs generalizing pos d with
  | case1 =>
    refine loops_of_round h.le fun limit _ => ?_
    rw [Reader.run, if_neg (by rw [h.eq_size]; exact Nat.lt_irrefl _), h.eq_size]
    exact runs_pure _
  | case2 c rest ih =>
    have hbehind := h.behind
    have hfurther := width_pos (Piece.next_source_ne_nil c rest)
    refine loops_of_round h.le fun limit hlimit => ?_
    have hround : text.utf8ByteSize < pos + (limit + 1) := by omega
    obtain ⟨b, hbyte, htakes⟩ := takes_turn hround h d
    rw [Reader.run, if_pos h.lt, List.foldl_cons]
    refine (runs_byteAt hbyte).bind (htakes.bind ?_)
    refine (runs_note (x := .round text pos _) ⟨by omega, hbehind.le⟩).bind ?_
    exact ih hbehind _ limit (by omega)

/-! ### What the draft comes to -/

namespace Draft

variable {p : Piece}

/-- The complex selector that is being read, when a segment without commas comes behind the draft. -/
def complexWith (d : Draft) (segment : List Piece) : Complex :=
  let segments := Text.splitAt? Piece.combinator? segment
  d.complex ++ .compound (d.compound ++ compoundFrom d.buffer.toList segments.1) ::
    segments.2.flatMap fun s => [.combinator s.1, .compound (Selector.compound s.2)]

/-- The complex selectors, when pieces come behind the draft. -/
def complexesWith (d : Draft) (ps : List Piece) : SelectorList :=
  let segments := Text.splitAt? Piece.comma? ps
  d.list ++ d.complexWith segments.1 :: segments.2.map fun s => Selector.complex s.2

/-- What is known of the selector, when pieces come behind the draft. -/
def parsedWith (d : Draft) (ps : List Piece) : Parsed :=
  let pure := d.isPureCss && !ps.any Piece.isExtended
  { isPureCss := pure
    ast := if pure then none else some (d.complexesWith ps)
    hasPseudoClasses := d.hasPseudoClasses || ps.any Piece.isPseudoClass
    hasAria := d.hasAria ||
      ps.any fun p => p.pseudo?.any fun node => node.name == PseudoNode.ariaName }

theorem parsedWith_nil (d : Draft) : d.parsedWith [] = d.finish := by
  simp [parsedWith, finish, complexesWith, complexWith, Text.splitAt?, compoundFrom, closeComplex,
    closeCompound, flush]

theorem parsedWith_empty (text : String) : empty.parsedWith (pieces text.toList) = parse text := by
  simp [parsedWith, parse, complexesWith, complexWith, complexes, Selector.complex, Selector.compound,
    empty]

theorem complexWith_add (d : Draft) (hp : p.comma? = none) (segment : List Piece) :
    (d.add p).complexWith segment = d.complexWith (p :: segment) := by
  cases p with
  | css css =>
    rw [complexWith, complexWith, Text.splitAt?_cons_none rfl]
    simp [add, write, compoundFrom, Piece.pseudo?, Piece.source]
  | pseudoClass css =>
    rw [complexWith, complexWith, Text.splitAt?_cons_none rfl]
    simp [add, write, notePseudoClass, compoundFrom, Piece.pseudo?, Piece.source]
  | pseudo name argument closed =>
    rw [complexWith, complexWith, Text.splitAt?_cons_none rfl]
    simp [add, addPseudo, flush, compoundFrom, Piece.pseudo?]
  | combinator c blanks =>
    have hcombinator : Piece.combinator? (.combinator c blanks) = some c := rfl
    rw [complexWith, complexWith, Text.splitAt?_cons_some hcombinator]
    simp [add, combine, closeCompound, flush, compoundFrom, Selector.compound]
  | comma blanks => exact absurd hp (Option.some_ne_none ())

theorem list_add (d : Draft) (hp : p.comma? = none) : (d.add p).list = d.list := by
  cases p with
  | css css => rfl
  | pseudoClass css => rfl
  | pseudo name argument closed => rfl
  | combinator c blanks => rfl
  | comma blanks => exact absurd hp (Option.some_ne_none ())

theorem complexesWith_add (d : Draft) (p : Piece) (ps : List Piece) :
    (d.add p).complexesWith ps = d.complexesWith (p :: ps) := by
  rw [complexesWith, complexesWith]
  cases hcomma : p.comma? with
  | none =>
    rw [Text.splitAt?_cons_none hcomma, list_add d hcomma]
    simp only [complexWith_add d hcomma]
  | some u =>
    cases p with
    | comma blanks =>
      rw [Text.splitAt?_cons_some hcomma]
      simp [add, closeComplex, closeCompound, flush, complexWith, compoundFrom, Text.splitAt?,
        Selector.complex, Selector.compound]
    | css css => exact absurd hcomma.symm (Option.some_ne_none u)
    | pseudoClass css => exact absurd hcomma.symm (Option.some_ne_none u)
    | pseudo name argument closed => exact absurd hcomma.symm (Option.some_ne_none u)
    | combinator c blanks => exact absurd hcomma.symm (Option.some_ne_none u)

theorem isPureCss_add (d : Draft) (p : Piece) :
    (d.add p).isPureCss = (d.isPureCss && !p.isExtended) := by
  cases p <;> simp [add, write, notePseudoClass, addPseudo, combine, closeComplex, closeCompound, flush,
    Piece.isExtended, Piece.combinator?, Piece.pseudo?]

theorem hasPseudoClasses_add (d : Draft) (p : Piece) :
    (d.add p).hasPseudoClasses = (d.hasPseudoClasses || p.isPseudoClass) := by
  cases p <;> simp [add, write, notePseudoClass, addPseudo, combine, closeComplex, closeCompound, flush,
    Piece.isPseudoClass]

theorem hasAria_add (d : Draft) (p : Piece) :
    (d.add p).hasAria = (d.hasAria || p.pseudo?.any fun node => node.name == PseudoNode.ariaName) := by
  cases p <;> simp [add, write, notePseudoClass, addPseudo, combine, closeComplex, closeCompound, flush,
    Piece.pseudo?]

/-- It makes no difference whether a piece is in the draft or comes behind it. -/
theorem parsedWith_add (d : Draft) (p : Piece) (ps : List Piece) :
    (d.add p).parsedWith ps = d.parsedWith (p :: ps) := by
  simp only [parsedWith, complexesWith_add, isPureCss_add, hasPseudoClasses_add, hasAria_add,
    List.any_cons, Bool.not_or, Bool.and_assoc, Bool.or_assoc]

/-- So it makes none whether the pieces are taken or still to come. -/
theorem finish_foldl (ps : List Piece) (d : Draft) : (ps.foldl add d).finish = d.parsedWith ps := by
  induction ps generalizing d with
  | nil => rw [parsedWith_nil, List.foldl_nil]
  | cons p ps ih => rw [List.foldl_cons, ih, parsedWith_add]

end Draft

/-- The draft of all pieces comes to what `parse` gives. -/
theorem finish_pieces (text : String) :
    ((pieces text.toList).foldl Draft.add .empty).finish = parse text := by
  rw [Draft.finish_foldl, Draft.parsedWith_empty]

/-- Every text is read to its end, as `parse` says, without an access at fault and in no more rounds than
it has bytes. -/
theorem read_allowed (text : String) (spare : Nat) :
    ∃ log, ((read text (text.utf8ByteSize + 1 + spare)).run []).run = some (.ok (parse text, log)) ∧
      ∀ a ∈ log, a.Allowed := by
  have hread : Runs (read text (text.utf8ByteSize + 1 + spare)) (parse text) := by
    rw [← finish_pieces]
    exact (loops_run (at_zero text) .empty _ (by omega)).bind (runs_pure _)
  obtain ⟨log, hlog, hrun⟩ := hread []
  rw [List.append_nil] at hrun
  exact ⟨log, hrun, hlog⟩

end Wayfind.Selector.Cursor
