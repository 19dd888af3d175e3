/-
  DocumentDb — what the default name of an index tells of its fields.

  * `KeyName.mark` is what a name has between two fields: the direction of the first after a colon,
    and a bar.  `KeyName.cut` cuts a text at every mark.  A mark is read in only one way, since it
    has its colon in front (`prefix_of_prefix_append_mark`), so texts with marks between them are
    cut into the pieces of each (`cut_append_mark`).
  * **`KeySpec.labels_eq_iff`**: a name tells the pieces of the paths, and the pieces tell the name.
    A path without marks is one piece, so where no path has a mark a name tells the fields
    (`KeySpec.defaultName_eq_iff_fields`).
-/
import DocumentDb.Proofs.Key.Description
import Mathlib.Data.List.Infix

namespace DocumentDb

/-! ## Marks -/

namespace KeyName

/-- What a name has after a path of the given direction that is not the last. -/
def mark (direction : Direction) : List Char := ':' :: direction.toInt.repr.toList ++ ['|']

variable {d d' last : Direction} {cs rest : List Char}

/-- A mark has no colon but that in front. -/
theorem colon_not_mem_tail_mark (d : Direction) : ':' ∉ (mark d).tail := by
  cases d <;> decide

/-- A mark that starts before another one ends before it. -/
theorem prefix_of_prefix_append_mark (hne : cs ≠ []) (h : mark d' <+: cs ++ (mark d ++ rest)) :
    mark d' <+: cs := by
  rcases List.prefix_or_prefix_of_prefix h (List.prefix_append cs _) with hin | ⟨left, hleft⟩
  · exact hin
  · cases left with
    | nil =>
      rw [List.append_nil] at hleft
      exact hleft ▸ List.prefix_rfl
    | cons c left =>
      -- what is left of the mark would start with the colon of the other one
      rw [← hleft, List.prefix_append_right_inj] at h
      obtain ⟨rfl, -⟩ := List.cons_prefix_cons.1 h
      have hcolon : ':' ∈ (mark d').tail := by
        rw [← hleft, List.tail_append_of_ne_nil hne]
        exact List.mem_append_right _ List.mem_cons_self
      exact absurd hcolon (colon_not_mem_tail_mark d')

/-- A text is empty, or a mark starts it, or a character that no mark starts with. -/
@[elab_as_elim]
theorem ind {motive : List Char → Prop} (nil : motive [])
    (marked : ∀ d rest, motive rest → motive (mark d ++ rest))
    (cons : ∀ c rest, (∀ d, ¬ mark d <+: c :: rest) → motive rest → motive (c :: rest)) :
    ∀ cs, motive cs
  | [] => nil
  | c :: cs => by
    by_cases h : ∃ d, mark d <+: c :: cs
    · obtain ⟨d, rest, hcs⟩ := h
      have hlength : rest.length < cs.length + 1 := by
        rw [← List.length_cons, ← hcs, mark, List.length_append, List.cons_append, List.length_cons]
        omega
      exact hcs ▸ marked d rest (ind nil marked cons rest)
    · exact cons c cs (fun d hd => h ⟨d, hd⟩) (ind nil marked cons cs)
termination_by cs => cs.length

/-! ## Cutting at marks -/

/-- The pieces of a text between its marks, each with the direction of the mark after it; the last
    piece gets a given one. -/
def cut (last : Direction) : List Char → List (List Char × Direction)
  | [] => [([], last)]
  | ':' :: '1' :: '|' :: rest => ([], .ascending) :: cut last rest
  | ':' :: '-' :: '1' :: '|' :: rest => ([], .descending) :: cut last rest
  | c :: rest => (cut last rest).modifyHead fun piece => (c :: piece.1, piece.2)

theorem cut_mark (last d : Direction) (rest : List Char) :
    cut last (mark d ++ rest) = ([], d) :: cut last rest := by
  cases d <;> rfl

theorem cut_cons (last : Direction) {c : Char} (h : ∀ d, ¬ mark d <+: c :: rest) :
    cut last (c :: rest) = (cut last rest).modifyHead fun piece => (c :: piece.1, piece.2) := by
  rw [cut]
  · rintro rest rfl rfl
    exact h .ascending ⟨rest, rfl⟩
  · rintro rest rfl rfl
    exact h .descending ⟨rest, rfl⟩

theorem cut_ne_nil (last : Direction) (cs : List Char) : cut last cs ≠ [] := by
  induction cs using ind with
  | nil => exact List.cons_ne_nil _ _
  | marked d rest _ =>
    rw [cut_mark]
    exact List.cons_ne_nil _ _
  | cons c rest h ih =>
    rw [cut_cons last h]
    simpa using ih

/-- The pieces on both sides of a mark are those of the texts on its sides. -/
theorem cut_append_mark (last d : Direction) (cs rest : List Char) :
    cut last (cs ++ (mark d ++ rest)) = cut d cs ++ cut last rest := by
  induction cs using ind with
  | nil => exact cut_mark last d rest
  | marked d' cs ih =>
    rw [List.append_assoc, cut_mark, cut_mark, ih]
    rfl
  | cons c cs h ih =>
    have hcut : ∀ d', ¬ mark d' <+: c :: (cs ++ (mark d ++ rest)) := fun d' hd' =>
      h d' (prefix_of_prefix_append_mark (List.cons_ne_nil c cs) hd')
    obtain ⟨piece, pieces, hpieces⟩ := List.exists_cons_of_ne_nil (cut_ne_nil d cs)
    rw [List.cons_append, cut_cons last hcut, cut_cons d h, ih, hpieces]
    rfl

/-- A text without marks is one piece. -/
theorem cut_of_no_mark (last : Direction) : ∀ {cs : List Char}, (∀ d, ¬ mark d <:+: cs) →
    cut last cs = [(cs, last)]
  | [], _ => rfl
  | c :: cs, h => by
    rw [cut_cons last fun d hd => h d hd.isInfix,
      cut_of_no_mark last fun d hd => h d (List.infix_cons hd)]
    rfl

/-- The text of some pieces, a mark after each. -/
def spell (pieces : List (List Char × Direction)) : List Char :=
  pieces.flatMap fun piece => piece.1 ++ mark piece.2

theorem spell_cut (last : Direction) (cs : List Char) : spell (cut last cs) = cs ++ mark last := by
  induction cs using ind with
  | nil => exact List.append_nil _
  | marked d rest ih =>
    rw [cut_mark, List.append_assoc, ← ih]
    rfl
  | cons c rest h ih =>
    obtain ⟨piece, pieces, hpieces⟩ := List.exists_cons_of_ne_nil (cut_ne_nil last rest)
    rw [hpieces] at ih
    rw [cut_cons last h, hpieces, List.cons_append, ← ih]
    rfl

end KeyName

/-! ## Names -/

/-- The pieces of the path of a field; the last has the direction of the field. -/
def KeyField.pieces (f : KeyField) : List (List Char × Direction) :=
  KeyName.cut f.direction f.path.toList

namespace KeySpec

open KeyName

/-- The pieces of the paths of all fields. -/
def pieces (spec : KeySpec) : List (List Char × Direction) := spec.fields.flatMap (·.pieces)

/-- No path of a field has a mark inside. -/
def Unmarked (spec : KeySpec) : Prop := ∀ f ∈ spec.fields, ∀ d, ¬ mark d <:+: f.path.toList

instance (spec : KeySpec) : Decidable spec.Unmarked :=
  decidable_of_iff (∀ f ∈ spec.fields, ¬ mark .ascending <:+: f.path.toList ∧
      ¬ mark .descending <:+: f.path.toList)
    ⟨fun h f hf d => match d with
      | .ascending => (h f hf).1
      | .descending => (h f hf).2, fun h f hf => ⟨h f hf .ascending, h f hf .descending⟩⟩

/-- A specification that was given no name when it was built of fields or read from a key
    document. -/
def Unnamed (spec : KeySpec) : Prop :=
  (∃ paths unique, build paths { unique := unique } = .ok spec) ∨
    ∃ keys unique, ofDocument keys { unique := unique } = .ok spec

theorem unnamed_iff {spec : KeySpec} : spec.Unnamed ↔ spec.name = spec.defaultName := by
  constructor
  · rintro (⟨paths, unique, hbuilt⟩ | ⟨keys, unique, hread⟩)
    · exact (build_eq_ok_iff.1 hbuilt).2.2.2
    · exact (ofDocument_eq_ok_iff.1 hread).2.2.2
  · intro hname
    exact Or.inl ⟨_, _, build_eq_ok_iff.2 ⟨rfl, rfl, nofun, hname⟩⟩

/-- A name is the text of the paths with a mark after each, but for the bar at the end. -/
theorem toList_labels : ∀ {fields : List KeyField}, fields ≠ [] →
    (labels fields).toList ++ ['|'] = fields.flatMap fun f => f.path.toList ++ mark f.direction
  | [f], _ => by
    simp [labels, KeyField.label, mark]
  | f :: next :: rest, _ => by
    have hrest := toList_labels (List.cons_ne_nil next rest)
    rw [List.flatMap_cons, ← hrest]
    simp [labels, KeyField.label, mark, String.intercalate_cons_cons]

/-- A name with a bar at the end has the pieces of the paths, and an empty one after the bar. -/
theorem cut_labels (last : Direction) {fields : List KeyField} (h : fields ≠ []) :
    cut last ((labels fields).toList ++ ['|']) = fields.flatMap (·.pieces) ++ [([], last)] := by
  rw [toList_labels h]
  clear h
  induction fields with
  | nil => rfl
  | cons f rest ih =>
    rw [List.flatMap_cons, List.append_assoc, cut_append_mark, ih, List.flatMap_cons,
      List.append_assoc]
    rfl

theorem spell_pieces {fields : List KeyField} (h : fields ≠ []) :
    spell (fields.flatMap (·.pieces)) = (labels fields).toList ++ ['|'] := by
  rw [toList_labels h, spell, List.flatMap_assoc]
  exact List.flatMap_congr fun f _ => spell_cut f.direction f.path.toList

/-- **The pieces of the paths make the name, and the name tells them.** -/
theorem labels_eq_iff {fields fields' : List KeyField} (h : fields ≠ []) (h' : fields' ≠ []) :
    labels fields = labels fields' ↔ fields.flatMap (·.pieces) = fields'.flatMap (·.pieces) := by
  constructor
  · intro he
    have hcut := cut_labels .ascending h
    rw [he, cut_labels .ascending h'] at hcut
    exact (List.append_cancel_right hcut).symm
  · intro he
    have hspell := spell_pieces h
    rw [he, spell_pieces h'] at hspell
    exact (String.toList_inj.1 (List.append_cancel_right hspell)).symm

variable {a b : KeySpec}

theorem defaultName_eq_iff : a.defaultName = b.defaultName ↔ a.pieces = b.pieces :=
  labels_eq_iff a.nonempty b.nonempty

theorem Unmarked.pieces_eq (h : a.Unmarked) :
    a.pieces = a.fields.map fun f => (f.path.toList, f.direction) := by
  rw [pieces, List.map_eq_flatMap]
  exact List.flatMap_congr fun f hf => cut_of_no_mark f.direction (h f hf)

/-- **Where no path has a mark, equal names are those of equal fields.** -/
theorem defaultName_eq_iff_fields (ha : a.Unmarked) (hb : b.Unmarked) :
    a.defaultName = b.defaultName ↔ a.fields = b.fields := by
  have hinjective : Function.Injective fun f : KeyField => (f.path.toList, f.direction) := by
    intro f g he
    obtain ⟨hpath, hdirection⟩ := Prod.mk.inj he
    exact KeyField.pair_injective (Prod.ext (String.toList_inj.1 hpath) hdirection)
  rw [defaultName_eq_iff, ha.pieces_eq, hb.pieces_eq, hinjective.list_map.eq_iff]

end KeySpec

end DocumentDb
