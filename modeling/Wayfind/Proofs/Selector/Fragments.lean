/-
What the fragments of a compound hold of its text.

Between two separators stands a segment, and the compound is read off it.  Its pseudo nodes cut the
segment into runs of CSS; each run gives a fragment, without the blanks around it, and nothing else
gives one (`fragments_compound`).  So a fragment is a stretch of the text as it stands.

The page puts the fragments of a compound together again, with nothing in between.  What comes of it
is the text of the segment without its pseudo nodes just when no pseudo node between CSS and CSS has
a blank next to it (`joined_eq_iff`); else that blank is lost, and with it a descendant combinator
(`not_joined_spaced`).
-/
import Mathlib
import Wayfind.Proofs.Selector.Shape

namespace Wayfind.Selector

variable {seg ps : List Piece}

/-! ### Segments -/

/-- The compound a link is. -/
def Link.compound? : Link → Option Compound
  | compound parts => some parts
  | combinator _ => none

/-- The compounds of a selector, in order. -/
def compounds (ast : SelectorList) : List Compound :=
  ast.flatMap fun links => links.filterMap Link.compound?

/-- What stands between the separators, commas and combinators. -/
def segments (ps : List Piece) : List (List Piece) :=
  (Text.segmentsAt Piece.comma? ps).flatMap (Text.segmentsAt Piece.combinator?)

theorem compounds_complex (ps : List Piece) :
    (complex ps).filterMap Link.compound? = (Text.segmentsAt Piece.combinator? ps).map compound := by
  have hlinks : ∀ others : List (Combinator × List Piece),
      (others.flatMap fun s => [Link.combinator s.1, .compound (compound s.2)]).filterMap Link.compound? =
        others.map fun s => compound s.2 := by
    intro others
    induction others with
    | nil => rfl
    | cons s others ih => simp [List.filterMap_cons, Link.compound?, ih]
  have hrest := hlinks (Text.splitAt? Piece.combinator? ps).2
  rw [Text.segmentsAt, List.map_cons, List.map_map]
  exact congrArg (compound (Text.splitAt? Piece.combinator? ps).1 :: ·) hrest

/-- There is one compound for each segment. -/
theorem compounds_complexes (ps : List Piece) : compounds (complexes ps) = (segments ps).map compound := by
  rw [compounds, complexes_eq_map, List.flatMap_map, segments, List.map_flatMap]
  exact List.flatMap_congr fun ps _ => compounds_complex ps

theorem compounds_parse {text : String} {ast : SelectorList} (h : ast ∈ (parse text).ast) :
    compounds ast = (segments (pieces text.toList)).map compound := by
  rw [ast_parse] at h
  split at h
  · exact absurd h nofun
  · exact Option.some.inj h ▸ compounds_complexes _

/-! ### Runs and fragments -/

/-- The runs of CSS in a segment: what stands between its pseudo nodes. -/
def runs (seg : List Piece) : List (List Char) :=
  (Text.segmentsAt Piece.pseudo? seg).map (List.flatMap Piece.source)

theorem runs_of_none (h : ∀ p ∈ seg, p.pseudo? = none) : runs seg = [seg.flatMap Piece.source] := by
  rw [runs, Text.segmentsAt_of_none h]
  rfl

theorem runs_append_cons {p : Piece} {node : PseudoNode} (hp : p.pseudo? = some node)
    (before after : List Piece) :
    runs (before ++ p :: after) = runs before ++ runs after := by
  rw [runs, Text.segmentsAt_append_cons hp, List.map_append]
  rfl

/-- The fragment of CSS that a part is. -/
def Part.css? : Part → Option (List Char)
  | css text => some text.toList
  | pseudo _ => none

/-- The fragments of a compound, in order. -/
def Compound.fragments (parts : Compound) : List (List Char) := parts.filterMap Part.css?

theorem fragments_fragment (css : List Char) :
    Compound.fragments (fragment css) = [Text.trim css].filter (· ≠ []) := by
  unfold fragment
  split
  · rename_i hblank
    simp [Compound.fragments, hblank]
  · rename_i hsolid
    simp [Compound.fragments, Part.css?, hsolid]

theorem fragments_append (parts rest : Compound) :
    Compound.fragments (parts ++ rest) = parts.fragments ++ Compound.fragments rest :=
  List.filterMap_append

/-- Each run that is not blank gives one fragment: the run without the blanks around it. -/
theorem fragments_compound (seg : List Piece) :
    (compound seg).fragments = ((runs seg).map Text.trim).filter (· ≠ []) := by
  unfold compound
  induction seg using Text.segments_induction Piece.pseudo? with
  | last seg hseg =>
    have hall := compoundFrom_append hseg [] []
    rw [List.append_nil] at hall
    rw [hall, runs_of_none hseg]
    exact fragments_fragment _
  | more first p node rest hfirst hp ih =>
    have hcompound : compoundFrom [] (first ++ p :: rest) =
        fragment (first.flatMap Piece.source) ++ .pseudo node :: compoundFrom [] rest := by
      rw [compoundFrom_append hfirst, compoundFrom, hp]
      rfl
    rw [hcompound, fragments_append, fragments_fragment, runs_append_cons hp, runs_of_none hfirst,
      List.map_append, List.filter_append, ← ih]
    rfl

/-! ### Fragments together -/

/-- The fragments put together, with nothing in between. -/
def Compound.joined (parts : Compound) : List Char := parts.fragments.flatten

theorem joined_compound (seg : List Piece) : (compound seg).joined = (runs seg).flatMap Text.trim := by
  rw [Compound.joined, fragments_compound, List.flatten_filter_ne_nil, List.flatMap_def]

/-- The text of a segment without its pseudo nodes. -/
def plain (seg : List Piece) : List Char :=
  seg.flatMap fun p => if p.pseudo?.isSome then [] else p.source

theorem plain_append (before after : List Piece) : plain (before ++ after) = plain before ++ plain after :=
  List.flatMap_append

theorem plain_cons {p : Piece} {node : PseudoNode} (hp : p.pseudo? = some node) (rest : List Piece) :
    plain (p :: rest) = plain rest := by
  rw [plain, List.flatMap_cons, hp]
  rfl

theorem plain_of_none (h : ∀ p ∈ seg, p.pseudo? = none) : plain seg = seg.flatMap Piece.source := by
  refine List.flatMap_congr fun p hp => ?_
  rw [h p hp]
  rfl

/-- The runs, put together, are the text without the pseudo nodes. -/
theorem flatten_runs (seg : List Piece) : (runs seg).flatten = plain seg := by
  induction seg using Text.segments_induction Piece.pseudo? with
  | last seg hseg => rw [runs_of_none hseg, plain_of_none hseg, List.flatten_singleton]
  | more first p node rest hfirst hp ih =>
    rw [runs_append_cons hp, List.flatten_append, ih, runs_of_none hfirst, List.flatten_singleton,
      plain_append, plain_of_none hfirst, plain_cons hp]

theorem joined_of_none (h : ∀ p ∈ seg, p.pseudo? = none) :
    (compound seg).joined = Text.trim (plain seg) := by
  rw [joined_compound, runs_of_none h, plain_of_none h, List.flatMap_singleton]

theorem joined_append_cons {first rest : List Piece} {p : Piece} {node : PseudoNode}
    (hfirst : ∀ p ∈ first, p.pseudo? = none) (hp : p.pseudo? = some node) :
    (compound (first ++ p :: rest)).joined = Text.trim (plain first) ++ (compound rest).joined := by
  rw [joined_compound, joined_compound, runs_append_cons hp, runs_of_none hfirst, plain_of_none hfirst,
    List.flatMap_append, List.flatMap_singleton]

/-! ### Blanks next to a pseudo node -/

/-- No pseudo node with CSS on both sides has a blank next to it. -/
def Flush (seg : List Piece) : Prop :=
  ∀ before p after, seg = before ++ p :: after → p.pseudo?.isSome →
    Text.trim (plain before) ≠ [] → Text.trim (plain after) ≠ [] →
      Text.EndsSolid (plain before) ∧ Text.StartsSolid (plain after)

theorem flush_of_none (h : ∀ p ∈ seg, p.pseudo? = none) : Flush seg := by
  rintro before p after rfl hp
  rw [h p (by simp)] at hp
  exact absurd hp nofun

/-- A segment is flush when it is so at its first pseudo node and behind it. -/
theorem flush_append_cons {first rest : List Piece} {p : Piece} {node : PseudoNode}
    (hfirst : ∀ p ∈ first, p.pseudo? = none) (hp : p.pseudo? = some node) :
    Flush (first ++ p :: rest) ↔
      (Text.trim (plain first) ≠ [] → Text.trim (plain rest) ≠ [] →
        Text.EndsSolid (plain first) ∧ Text.StartsSolid (plain rest)) ∧ Flush rest := by
  have hplain (before : List Piece) : plain (first ++ p :: before) = plain first ++ plain before := by
    rw [plain_append, plain_cons hp]
  constructor
  · intro h
    refine ⟨h first p rest rfl (by rw [hp]; rfl), ?_⟩
    rintro before q after rfl hq hbefore hafter
    have hsolid := h (first ++ p :: before) q after (by simp) hq
    rw [hplain, Ne, Text.trim_eq_nil_iff] at hsolid
    rw [Ne, Text.trim_eq_nil_iff] at hbefore
    obtain ⟨hends, hstarts⟩ := hsolid (fun hblank => hbefore (List.forall_mem_append.mp hblank).2) hafter
    refine ⟨fun c hc => hends c ?_, hstarts⟩
    rwa [List.getLast?_append_of_ne_nil _ fun hnil => hbefore (by rw [hnil]; exact Text.blank_nil)]
  · rintro ⟨hat, hbehind⟩ before q after hseg hq hbefore hafter
    rcases List.append_eq_append_iff.mp hseg.symm with ⟨gone, rfl, hrest⟩ | ⟨gone, rfl, hrest⟩
    · -- The pseudo node is the first one, for there is none in `first`.
      cases gone with
      | nil =>
        obtain ⟨rfl, rfl⟩ := List.cons.inj hrest
        rw [List.append_nil] at hat
        exact hat hbefore hafter
      | cons r gone =>
        obtain ⟨rfl, -⟩ := List.cons.inj hrest
        rw [hfirst q (by simp)] at hq
        exact absurd hq nofun
    · cases gone with
      | nil =>
        obtain ⟨rfl, rfl⟩ := List.cons.inj hrest
        rw [List.append_nil] at hbefore ⊢
        exact hat hbefore hafter
      | cons r between =>
        rw [List.cons_append] at hrest
        obtain ⟨rfl, rfl⟩ := List.cons.inj hrest
        obtain ⟨other, hother⟩ := Option.isSome_iff_exists.mp hq
        rw [hplain] at hbefore ⊢
        rw [plain_append, plain_cons hother] at hat
        by_cases hbetween : Text.Blank (plain between)
        · -- The first pseudo node has CSS on both sides too, so not even blanks stand between the two.
          rw [Ne, Text.trim_append_of_blank.2 hbetween] at hbefore
          rw [Text.trim_append_of_blank.1 hbetween] at hat
          obtain ⟨hends, hstarts⟩ := hat hbefore hafter
          cases hnone : plain between with
          | nil => exact ⟨by rwa [List.append_nil], by rwa [hnone] at hstarts⟩
          | cons c cs =>
            rw [hnone] at hstarts hbetween
            exact absurd ((hbetween c List.mem_cons_self).symm.trans (hstarts c rfl)) nofun
        · obtain ⟨hends, hstarts⟩ := hbehind between q after rfl hq 
            (fun hnil => hbetween (Text.trim_eq_nil_iff.mp hnil)) hafter
          refine ⟨fun c hc => hends c ?_, hstarts⟩
          rwa [List.getLast?_append_of_ne_nil _ fun hnil => hbetween (by rw [hnil]; exact Text.blank_nil)] at hc

/-! ### What the page makes of it -/

theorem joined_eq_nil_iff (seg : List Piece) :
    (compound seg).joined = [] ↔ Text.trim (plain seg) = [] := by
  rw [joined_compound, ← flatten_runs, List.flatMap_eq_nil_iff, Text.trim_eq_nil_iff, Text.Blank]
  simp only [Text.trim_eq_nil_iff, Text.Blank, List.mem_flatten]
  exact ⟨fun h c ⟨run, hrun, hc⟩ => h run hrun c hc, fun h run hrun c hc => h c ⟨run, hrun, hc⟩⟩

/-- There are no blanks around what the fragments put together are. -/
theorem trimmed_joined (h : (compound seg).joined ≠ []) : Text.Trimmed (compound seg).joined := by
  induction seg using Text.segments_induction Piece.pseudo? with
  | last seg hseg =>
    rw [joined_of_none hseg] at h ⊢
    exact Text.trimmed_trim h
  | more first p node rest hfirst hp ih =>
    rw [joined_append_cons hfirst hp] at h ⊢
    by_cases hhead : Text.trim (plain first) = []
    · rw [hhead, List.nil_append] at h ⊢
      exact ih h
    by_cases htail : (compound rest).joined = []
    · rw [htail, List.append_nil]
      exact Text.trimmed_trim hhead
    · exact (Text.trimmed_trim hhead).append (ih htail)

/-- Putting fragments together adds nothing. -/
theorem length_joined_le (seg : List Piece) :
    (compound seg).joined.length ≤ (Text.trim (plain seg)).length := by
  induction seg using Text.segments_induction Piece.pseudo? with
  | last seg hseg => rw [joined_of_none hseg]
  | more first p node rest hfirst hp ih =>
    rw [joined_append_cons hfirst hp, plain_append, plain_cons hp, List.length_append]
    by_cases hhead : Text.trim (plain first) = []
    · rwa [Text.trim_append_of_blank.1 (Text.trim_eq_nil_iff.mp hhead), hhead, List.length_nil, Nat.zero_add]
    by_cases htail : Text.trim (plain rest) = []
    · rw [Text.trim_append_of_blank.2 (Text.trim_eq_nil_iff.mp htail), (joined_eq_nil_iff rest).mpr htail]
      exact le_rfl
    · obtain ⟨gap, hgap, -⟩ := Text.exists_gap hhead htail
      rw [hgap, List.length_append, List.length_append]
      omega

/-- The fragments put together are the text without the pseudo nodes and the blanks around it, just
when no pseudo node between CSS and CSS has a blank next to it. -/
theorem joined_eq_iff (seg : List Piece) :
    (compound seg).joined = Text.trim (plain seg) ↔ Flush seg := by
  induction seg using Text.segments_induction Piece.pseudo? with
  | last seg hseg => exact iff_of_true (joined_of_none hseg) (flush_of_none hseg)
  | more first p node rest hfirst hp ih =>
    rw [joined_append_cons hfirst hp, plain_append, plain_cons hp, flush_append_cons hfirst hp, ← ih]
    by_cases hhead : Text.trim (plain first) = []
    · rw [Text.trim_append_of_blank.1 (Text.trim_eq_nil_iff.mp hhead), hhead, List.nil_append]
      simp
    by_cases htail : Text.trim (plain rest) = []
    · rw [Text.trim_append_of_blank.2 (Text.trim_eq_nil_iff.mp htail), (joined_eq_nil_iff rest).mpr htail, htail,
        List.append_nil]
      simp
    obtain ⟨gap, hgap, hflush⟩ := Text.exists_gap hhead htail
    rw [hgap, List.append_cancel_left_eq, ← hflush]
    constructor
    · intro heq
      have hlength := congrArg List.length heq
      have hle := length_joined_le rest
      rw [List.length_append] at hlength
      obtain rfl : gap = [] := List.length_eq_zero_iff.mp (by omega)
      exact ⟨fun _ _ => rfl, heq⟩
    · rintro ⟨hnone, heq⟩
      rw [hnone hhead htail, heq, List.nil_append]

theorem trim_joined (seg : List Piece) : Text.trim (compound seg).joined = (compound seg).joined := by
  by_cases h : (compound seg).joined = []
  · rw [h]
    rfl
  · exact (trimmed_joined h).trim

/-- Each segment of the text gives one compound, in order.  The fragments of the compound, put together,
are the runs of the segment, each without the blanks around it; and this is the segment without its
pseudo nodes, up to blanks around it, just when no pseudo node between CSS and CSS has a blank next
to it. -/
theorem joined_parse {text : String} {ast : SelectorList} (h : ast ∈ (parse text).ast) :
    compounds ast = (segments (pieces text.toList)).map compound ∧
      ∀ seg ∈ segments (pieces text.toList),
        (compound seg).joined = (runs seg).flatMap Text.trim ∧ (runs seg).flatten = plain seg ∧
          (Text.trim (compound seg).joined = Text.trim (plain seg) ↔ Flush seg) := by
  refine ⟨compounds_parse h, fun seg _ => ⟨joined_compound seg, flatten_runs seg, ?_⟩⟩
  rw [trim_joined]
  exact joined_eq_iff seg

/-- The pieces of a selector with a blank between a word and a pseudo node. -/
def spaced : List Piece :=
  [.css ['d'], .css ['i'], .css ['v'], .css [' '],
    .pseudo ['t', 'e', 'x', 't'] ['(', 'x', ')'] true, .css ['.'], .css ['b']]

theorem pieces_spaced : pieces "div ::-p-text(x).b".toList = spaced := by cbv

theorem segments_spaced : segments spaced = [spaced] := by decide

theorem ast_spaced : (parse "div ::-p-text(x).b").ast = some (complexes spaced) :=
  ast_of_pieces pieces_spaced (by decide)

/-- The blank is in the text and not in what the fragments are put together. -/
theorem joined_parse_spaced : complexes spaced ∈ (parse "div ::-p-text(x).b").ast ∧
    compounds (complexes spaced) = [compound spaced] ∧
      (compound spaced).joined = (runs spaced).flatMap Text.trim ∧ ¬ Flush spaced := by
  have hast : complexes spaced ∈ (parse "div ::-p-text(x).b").ast := ast_spaced
  obtain ⟨hcompounds, hsegments⟩ := joined_parse hast
  rw [pieces_spaced, segments_spaced] at hcompounds hsegments
  obtain ⟨hjoined, -, hflush⟩ := hsegments spaced (List.mem_singleton_self _)
  refine ⟨hast, hcompounds, hjoined, fun h => absurd (hflush.mpr h) (by decide)⟩

/-- A descendant has become the element itself: `div .b` is read as `div.b`. -/
theorem not_joined_spaced : ∃ ast ∈ (parse "div ::-p-text(x).b").ast,
    compounds ast = [compound spaced] ∧ segments (pieces "div ::-p-text(x).b".toList) = [spaced] ∧
      (compound spaced).joined = "div.b".toList ∧ plain spaced = "div .b".toList ∧
        Text.trim (compound spaced).joined ≠ Text.trim (plain spaced) := by
  refine ⟨_, ast_spaced, ?_, ?_, ?_, ?_, ?_⟩
  · rw [compounds_complexes, segments_spaced]
    rfl
  · rw [pieces_spaced, segments_spaced]
  all_goals decide

end Wayfind.Selector
