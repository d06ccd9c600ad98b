/-
Offsets into a text, and readings that go well.

An offset that lies between two characters parts the text, and what stands behind it says all
there is to know of it (`At`): which byte is there, what a cut from there gives, and which
offset comes behind so many characters.  Bytes tell ASCII apart from all the rest, for the
bytes of any other character are 128 and more (`code_mem_encode`).

A reading goes well when it ends, without a fault, and has made no access that it may not make
(`Runs`).  Readings are put together by `bind`, so each of their parts is looked at once.  Of a loop it is
said that it needs no more rounds than bytes are left (`Loops`).
-/
import Wayfind.Selector.Cursor

namespace Wayfind.Selector.Cursor

variable {text : String} {pos : Nat} {c d : Char} {cs rest : List Char}

/-! ### Widths -/

/-- The number of bytes that characters take. -/
def width (cs : List Char) : Nat := (String.ofList cs).utf8ByteSize

@[simp] theorem width_nil : width [] = 0 := rfl

@[simp] theorem width_append (cs rest : List Char) : width (cs ++ rest) = width cs + width rest := by
  unfold width
  rw [String.ofList_append, String.utf8ByteSize_append]

@[simp] theorem width_cons (c : Char) (cs : List Char) : width (c :: cs) = c.utf8Size + width cs := by
  unfold width
  rw [String.ofList_cons, String.utf8ByteSize_append, String.utf8ByteSize_singleton]

theorem width_toList (text : String) : width text.toList = text.utf8ByteSize := by
  rw [width, String.ofList_toList]

theorem width_pos (hcs : cs ≠ []) : 0 < width cs := by
  cases cs with
  | nil => exact absurd rfl hcs
  | cons c cs =>
    have hc := c.utf8Size_pos
    rw [width_cons]
    omega

/-! ### Bytes -/

/-- The bytes of a text are those of its characters. -/
theorem bytes_ofList (cs : List Char) : bytes (String.ofList cs) = cs.flatMap String.utf8EncodeChar := by
  rw [bytes, String.toByteArray_ofList, List.utf8Encode, List.toList_data_toByteArray]

theorem length_flatMap_encode (cs : List Char) : (cs.flatMap String.utf8EncodeChar).length = width cs := by
  rw [← bytes_ofList, bytes, Array.length_toList, ByteArray.size_data, String.size_toByteArray, width]

theorem lt_of_byte {b : UInt8} (hb : (bytes text)[pos]? = some b) : pos < text.utf8ByteSize := by
  have hlength := (List.getElem?_eq_some_iff.mp hb).1
  rwa [← width_toList, ← length_flatMap_encode, ← bytes_ofList, String.ofList_toList]

/-- A character of a single byte is that byte. -/
theorem encode_of_ascii (hc : c.utf8Size = 1) : String.utf8EncodeChar c = [code c] :=
  String.utf8EncodeChar_eq_singleton hc

/-- The bytes of all other characters are 128 and more. -/
theorem le_of_mem_encode (hc : c.utf8Size ≠ 1) {b : UInt8} (hb : b ∈ String.utf8EncodeChar c) :
    128 ≤ b.toNat := by
  have hlarge : ¬ c.val.toNat ≤ 127 := fun h => hc (Char.utf8Size_eq_one_iff.mpr h)
  unfold String.utf8EncodeChar at hb
  simp only [hlarge, if_false] at hb
  split at hb
  · simp only [List.mem_cons, List.not_mem_nil, or_false] at hb
    rcases hb with rfl | rfl <;> simp only [UInt8.toNat_ofNat'] <;> omega
  · split at hb
    · simp only [List.mem_cons, List.not_mem_nil, or_false] at hb
      rcases hb with rfl | rfl | rfl <;> simp only [UInt8.toNat_ofNat'] <;> omega
    · simp only [List.mem_cons, List.not_mem_nil, or_false] at hb
      rcases hb with rfl | rfl | rfl | rfl <;> simp only [UInt8.toNat_ofNat'] <;> omega

theorem toNat_code (hc : c.utf8Size = 1) : (code c).toNat = c.toNat := by
  have hval := Char.utf8Size_eq_one_iff.mp hc
  have hle : c.toNat ≤ 127 := hval
  have hcode : (code c).toNat = c.toNat % 256 := rfl
  omega

/-- The byte of an ASCII character occurs in that character only. -/
theorem code_mem_encode (hd : d.utf8Size = 1) : code d ∈ String.utf8EncodeChar c ↔ c = d := by
  constructor
  · intro hmem
    have hval : d.toNat ≤ 127 := Char.utf8Size_eq_one_iff.mp hd
    by_cases hc : c.utf8Size = 1
    · rw [encode_of_ascii hc, List.mem_singleton] at hmem
      have hnat := congrArg UInt8.toNat hmem
      rw [toNat_code hd, toNat_code hc] at hnat
      exact Char.toNat_inj.mp hnat.symm
    · have hle := le_of_mem_encode hc hmem
      rw [toNat_code hd] at hle
      omega
  · rintro rfl
    rw [encode_of_ascii hd]
    exact List.mem_singleton_self _

/-! ### What stands behind an offset -/

/-- The offset lies between characters of the text, and `rest` is what stands behind it. -/
def At (text : String) (pos : Nat) (rest : List Char) : Prop :=
  ∃ before : List Char, text.toList = before ++ rest ∧ pos = width before

theorem at_zero (text : String) : At text 0 text.toList := ⟨[], rfl, rfl⟩

theorem at_append (before rest : String) : At (before ++ rest) before.utf8ByteSize rest.toList :=
  ⟨before.toList, String.toList_append, (width_toList before).symm⟩

namespace At

theorem move (h : At text pos (cs ++ rest)) : At text (pos + width cs) rest := by
  obtain ⟨before, htext, rfl⟩ := h
  exact ⟨before ++ cs, by rw [htext, List.append_assoc], (width_append before cs).symm⟩

theorem next (h : At text pos (c :: rest)) : At text (pos + c.utf8Size) rest := by
  have hsplit : At text pos ([c] ++ rest) := h
  have hmove := hsplit.move
  rwa [width_cons, width_nil, Nat.add_zero] at hmove

theorem size_eq (h : At text pos rest) : text.utf8ByteSize = pos + width rest := by
  obtain ⟨before, htext, rfl⟩ := h
  rw [← width_toList, htext, width_append]

theorem le (h : At text pos rest) : pos ≤ text.utf8ByteSize := by
  rw [h.size_eq]
  omega

theorem lt (h : At text pos (c :: rest)) : pos < text.utf8ByteSize := by
  have hc := c.utf8Size_pos
  rw [h.size_eq, width_cons]
  omega

theorem eq_size (h : At text pos []) : pos = text.utf8ByteSize := h.size_eq.symm

theorem boundary (h : At text pos rest) : IsBoundary text pos := by
  obtain ⟨before, htext, rfl⟩ := h
  refine String.Pos.Raw.isValid_iff_exists_append.mpr ⟨String.ofList before, String.ofList rest, ?_, rfl⟩
  rw [← String.ofList_append, ← htext, String.ofList_toList]

/-- A cut gives the characters between two offsets. -/
theorem extract_eq (h : At text pos (cs ++ rest)) :
    text.extract ⟨⟨pos⟩, h.boundary⟩ ⟨⟨pos + width cs⟩, h.move.boundary⟩ = String.ofList cs := by
  obtain ⟨before, htext, rfl⟩ := h
  have hsplit : text.toByteArray =
      before.utf8Encode ++ (cs.utf8Encode ++ rest.utf8Encode) := by
    rw [← String.ofList_toList (s := text), htext, String.toByteArray_ofList, List.utf8Encode_append,
      List.utf8Encode_append]
  have hbefore : before.utf8Encode.size = width before := by
    rw [← String.toByteArray_ofList, String.size_toByteArray, width]
  have hcs : cs.utf8Encode.size = width cs := by
    rw [← String.toByteArray_ofList, String.size_toByteArray, width]
  rw [← String.toByteArray_inj, String.toByteArray_extract, String.toByteArray_ofList, hsplit]
  simp only
  rw [← hbefore, ← hcs, ← Nat.add_zero before.utf8Encode.size, Nat.add_assoc, Nat.zero_add,
    ByteArray.extract_append_size_add]
  exact ByteArray.extract_append_eq_left rfl

/-- The bytes behind an offset are those of what stands there. -/
theorem drop_bytes (h : At text pos rest) :
    (bytes text).drop pos = rest.flatMap String.utf8EncodeChar := by
  obtain ⟨before, htext, rfl⟩ := h
  rw [← String.ofList_toList (s := text), htext, bytes_ofList, List.flatMap_append,
    ← length_flatMap_encode, List.drop_left]

theorem byte_eq (h : At text pos (c :: rest)) {i : Nat} (hi : i < c.utf8Size) :
    (bytes text)[pos + i]? = (String.utf8EncodeChar c)[i]? := by
  rw [← List.getElem?_drop, h.drop_bytes, List.flatMap_cons, List.getElem?_append_left]
  rwa [String.length_utf8EncodeChar]

/-- An ASCII character is found by its byte. -/
theorem byte_ascii (h : At text pos (c :: rest)) (hc : c.utf8Size = 1) :
    (bytes text)[pos]? = some (code c) := by
  have hbyte := h.byte_eq (i := 0) c.utf8Size_pos
  rwa [encode_of_ascii hc] at hbyte

end At

/-! ### Readings that go well -/

/-- The reading ends with a value, and has made no access but such as can be made. -/
def Runs {α : Type} (m : Reading α) (a : α) : Prop :=
  ∀ log, ∃ more, (∀ x ∈ more, x.Allowed) ∧ m log = pure (a, more ++ log)

variable {α β : Type} {m : Reading α} {a : α} {f : α → Reading β} {b : β}

theorem runs_pure (a : α) : Runs (pure a) a := fun _ => ⟨[], nofun, rfl⟩

theorem Runs.bind (hm : Runs m a) (hf : Runs (f a) b) : Runs (m >>= f) b := by
  intro log
  obtain ⟨first, hfirst, hm⟩ := hm log
  obtain ⟨second, hsecond, hf⟩ := hf (first ++ log)
  refine ⟨second ++ first, List.forall_mem_append.mpr ⟨hsecond, hfirst⟩, ?_⟩
  have hbind : (m >>= f) log = m log >>= fun s => f s.1 s.2 := rfl
  rw [hbind, hm, pure_bind, hf, List.append_assoc]

theorem runs_note {x : Access} (hx : x.Allowed) : Runs (note x) () :=
  fun _ => ⟨[x], List.forall_mem_singleton.mpr hx, rfl⟩

theorem runs_slice (h : At text pos (cs ++ rest)) :
    Runs (slice text pos (pos + width cs)) (String.ofList cs) := by
  have hle : pos ≤ pos + width cs := Nat.le_add_right _ _
  refine (runs_note (x := .slice text pos _) ⟨hle, h.move.le, h.boundary, h.move.boundary⟩).bind ?_
  rw [dif_pos ⟨hle, h.boundary, h.move.boundary⟩, h.extract_eq]
  exact runs_pure _

theorem runs_tail (h : At text pos rest) : Runs (tail text pos) (String.ofList rest) := by
  have hall : At text pos (rest ++ []) := by rwa [List.append_nil]
  have hslice := runs_slice hall
  rwa [← h.size_eq] at hslice

theorem runs_byteAt {b : UInt8} (h : (bytes text)[pos]? = some b) : Runs (byteAt text pos) b := by
  refine (runs_note (x := .byte text pos) (lt_of_byte h)).bind ?_
  rw [h]
  exact runs_pure b

theorem runs_minus {count less : Nat} (h : less ≤ count) : Runs (minus count less) (count - less) := by
  refine (runs_note (x := .minus count less) h).bind ?_
  rw [if_pos h]
  exact runs_pure _

theorem runs_reach (h : pos ≤ text.utf8ByteSize) : Runs (reach text pos) pos :=
  (runs_note (x := .reach text pos) h).bind (runs_pure pos)

/-! ### Loops that come to an end -/

/-- The loop ends with a value when it begins at an offset and may make a round for each byte from there
on, and one more. -/
def Loops (text : String) (loop : Nat → Nat → Reading α) (pos : Nat) (a : α) : Prop :=
  ∀ limit, text.utf8ByteSize < pos + limit → Runs (loop limit pos) a

variable {loop : Nat → Nat → Reading α}

/-- A loop is looked at in its first round. -/
theorem loops_of_round (hpos : pos ≤ text.utf8ByteSize)
    (hround : ∀ limit, text.utf8ByteSize ≤ pos + limit → Runs (loop (limit + 1) pos) a) :
    Loops text loop pos a := by
  intro limit hlimit
  cases limit with
  | zero => omega
  | succ limit => exact hround limit (by omega)

/-- A loop that goes on byte by byte is past a character when each of its bytes lets it go on. -/
theorem Loops.pass (h : At text pos (c :: rest))
    (hround : ∀ i b, (bytes text)[i]? = some b → b ∈ String.utf8EncodeChar c → Loops text loop (i + 1) a →
      Loops text loop i a)
    (hloop : Loops text loop (pos + c.utf8Size) a) : Loops text loop pos a := by
  have hall : ∀ k ≤ c.utf8Size, Loops text loop (pos + (c.utf8Size - k)) a := by
    intro k
    induction k with
    | zero =>
      intro _
      exact hloop
    | succ k ih =>
      intro hk
      have hi : c.utf8Size - (k + 1) < c.utf8Size := by omega
      have hbyte := h.byte_eq hi
      have hmem : c.utf8Size - (k + 1) < (String.utf8EncodeChar c).length := by
        rwa [String.length_utf8EncodeChar]
      rw [List.getElem?_eq_getElem hmem] at hbyte
      refine hround _ _ hbyte (List.getElem_mem hmem) ?_
      have hnext : pos + (c.utf8Size - (k + 1)) + 1 = pos + (c.utf8Size - k) := by omega
      rw [hnext]
      exact ih (by omega)
  have hfirst := hall c.utf8Size (Nat.le_refl _)
  rwa [Nat.sub_self, Nat.add_zero] at hfirst

end Wayfind.Selector.Cursor
