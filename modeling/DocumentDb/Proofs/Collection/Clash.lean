/-
  DocumentDb — indexes whose names clash.

  * `Collection.ClashesWith`: a specification is refused because an index has its name and is
    defined otherwise.  No refusal of that kind has another cause (`exists_clashesWith_iff`).
  * **`Collection.unnamed_clash_iff`**: two specifications that were given no name have the same
    just when their paths have the same pieces.  Where no path has a mark inside, they clash only
    over the same fields.
-/
import DocumentDb.Proofs.Collection.Ensure
import DocumentDb.Proofs.Key.Naming

namespace DocumentDb

theorem KeySpec.sameDefinition_iff {a b : KeySpec} :
    a.sameDefinition b = true ↔ a.unique = b.unique ∧ a.fields = b.fields := by
  simp [sameDefinition]

namespace Collection

variable [Collator] {c : Collection} {spec : KeySpec} {i : Index}

/-- Asking for an index is refused since there is one of the name, and this is it. -/
def ClashesWith (c : Collection) (spec : KeySpec) (i : Index) : Prop :=
  c.index? spec.name = some i ∧
    (c.ensureSpec spec).2.fault?.map Fault.kind = some .indexAlreadyExists

/-- An index clashes with a specification of its name and of another definition. -/
theorem clashesWith_iff (hi : i ∈ c.registry.indexes) :
    c.ClashesWith spec i ↔ i.spec.name = spec.name ∧ i.spec.sameDefinition spec = false := by
  have hname : c.index? spec.name = some i ↔ i.spec.name = spec.name :=
    Registry.get?_eq_some_iff.trans (and_iff_right hi)
  rw [ClashesWith, hname]
  refine and_congr_right fun h => ?_
  have hensure : c.ensureSpec spec = if i.spec.sameDefinition spec then (c, ⟨spec.name, none⟩)
      else (c, ⟨spec.name, some (.indexDefinedOtherwise spec.name)⟩) := by
    rw [ensureSpec, hname.2 h]
  rw [hensure]
  cases i.spec.sameDefinition spec with
  | true => exact iff_of_false nofun nofun
  | false => exact iff_of_true rfl rfl

/-- Whoever is refused for the name clashes with an index. -/
theorem exists_clashesWith_iff : (∃ i ∈ c.registry.indexes, c.ClashesWith spec i) ↔
    (c.ensureSpec spec).2.fault?.map Fault.kind = some .indexAlreadyExists := by
  constructor
  · rintro ⟨i, -, -, hfault⟩
    exact hfault
  · intro hfault
    rcases c.ensureSpec_cases spec with ⟨i, hi, hname, hsame, he⟩ | ⟨i, hi, hname, hother, he⟩ |
      ⟨hfree, i, hbuilt, he⟩ | ⟨hfree, fault, hbuilt, he⟩
    · rw [he] at hfault
      cases hfault
    · exact ⟨i, hi, Registry.get?_eq_some_iff.2 ⟨hi, hname⟩, hfault⟩
    · rw [he] at hfault
      cases hfault
    · rw [he] at hfault
      cases hfault

/-- **Two specifications have the same default name just when the pieces of their paths are the
    same, and where no path has a mark inside just when their fields are.**  So an index that was
    given no name clashes with another such index only if the pieces are the same, and where no path
    has a mark only over the same fields. -/
theorem unnamed_clash_iff (a b : KeySpec) :
    (a.defaultName = b.defaultName ↔ a.pieces = b.pieces) ∧
    (a.Unmarked → b.Unmarked → (a.defaultName = b.defaultName ↔ a.fields = b.fields)) ∧
    ∀ c : Collection,
      ((∃ i ∈ c.registry.indexes, c.ClashesWith b i) ↔
        (c.ensureSpec b).2.fault?.map Fault.kind = some .indexAlreadyExists) ∧
      (a.Unnamed → b.Unnamed → ∀ i ∈ c.registry.indexes, i.spec = a →
        (c.ClashesWith b i ↔ a.pieces = b.pieces ∧ a.sameDefinition b = false) ∧
        (a.Unmarked → b.Unmarked →
          (c.ClashesWith b i ↔ a.fields = b.fields ∧ a.unique ≠ b.unique))) := by
  refine ⟨KeySpec.defaultName_eq_iff, KeySpec.defaultName_eq_iff_fields, fun c =>
    ⟨exists_clashesWith_iff, fun ha hb i hi hspec => ?_⟩⟩
  subst hspec
  have hclash : c.ClashesWith b i ↔ i.spec.name = b.name ∧ i.spec.sameDefinition b = false :=
    clashesWith_iff hi
  rw [KeySpec.unnamed_iff.1 ha, KeySpec.unnamed_iff.1 hb] at hclash
  refine ⟨hclash.trans (and_congr_left' KeySpec.defaultName_eq_iff), fun hma hmb => hclash.trans ?_⟩
  rw [KeySpec.defaultName_eq_iff_fields hma hmb]
  refine and_congr_right fun hfields => ?_
  rw [← Bool.not_eq_true, KeySpec.sameDefinition_iff, and_iff_left hfields]

end Collection

/-! ## Paths with colons and bars -/

namespace KeySpec

/-- The specification of some fields, which was given no name. -/
def ofFields (fields : List KeyField) (nonempty : fields ≠ [])
    (distinct : (fields.map (·.path)).Nodup) : KeySpec :=
  ⟨fields, false, labels fields, nonempty, distinct⟩

/-- Two fields. -/
def parted : KeySpec :=
  ofFields [⟨"town", .ascending, by decide⟩,
    ⟨"street", .ascending, by decide⟩] (List.cons_ne_nil _ _) (by decide)

/-- One field, whose path is the name of the two but for the direction of the second. -/
def barred : KeySpec :=
  ofFields [⟨"town:1|street", .ascending, by decide⟩] (List.cons_ne_nil _ _) (by decide)

/-- Two fields with colons and bars in their paths, but without marks. -/
def colons : KeySpec :=
  ofFields [⟨"a:b|c", .ascending, by decide⟩,
    ⟨"d", .descending, by decide⟩] (List.cons_ne_nil _ _) (by decide)

/-- The same letters, cut in another place. -/
def bars : KeySpec :=
  ofFields [⟨"a:b", .ascending, by decide⟩,
    ⟨"c|d", .descending, by decide⟩] (List.cons_ne_nil _ _) (by decide)

end KeySpec

namespace Collection

open KeySpec (parted barred colons bars)

/-- A new collection, asked for one index. -/
def ensured (spec : KeySpec) : Collection := ((new "main" {} .equality).ensureSpec spec).1

theorem indexes_ensured (spec : KeySpec) : (ensured spec).registry.indexes = [.new 0 spec] := rfl

/-- Colons and bars alone do not make names clash. -/
theorem colons_spare_bars : colons.Unmarked ∧ bars.Unmarked ∧ colons.Unnamed ∧ bars.Unnamed ∧
    .new 0 colons ∈ (ensured colons).registry.indexes ∧ colons.defaultName ≠ bars.defaultName ∧
      ¬ (ensured colons).ClashesWith bars (.new 0 colons) := by
  have hmarks : colons.Unmarked ∧ bars.Unmarked := by decide
  have hcolons : colons.Unnamed := KeySpec.unnamed_iff.2 rfl
  have hbars : bars.Unnamed := KeySpec.unnamed_iff.2 rfl
  have hindex : .new 0 colons ∈ (ensured colons).registry.indexes := by
    rw [indexes_ensured]
    exact List.mem_singleton_self _
  have hfields : colons.fields ≠ bars.fields := by decide
  obtain ⟨-, hnames, hclash⟩ := unnamed_clash_iff colons bars
  have hindexes := ((hclash (ensured colons)).2 hcolons hbars _ hindex rfl).2 hmarks.1 hmarks.2
  exact ⟨hmarks.1, hmarks.2, hcolons, hbars, hindex, (hnames hmarks.1 hmarks.2).not.2 hfields,
    fun h => hfields (hindexes.1 h).1⟩

/-- Two fields and one field whose path is like their name cannot have indexes without a name
    both. -/
theorem parted_clashes_barred : parted.Unnamed ∧ barred.Unnamed ∧ parted.fields ≠ barred.fields ∧
    parted.defaultName = barred.defaultName ∧
    (ensured parted).ClashesWith barred (.new 0 parted) := by
  have hname : parted.defaultName = barred.defaultName := by decide +kernel
  refine ⟨KeySpec.unnamed_iff.2 rfl, KeySpec.unnamed_iff.2 rfl, by decide, hname, ?_⟩
  refine (clashesWith_iff ?_).2 ⟨hname, by decide⟩
  rw [indexes_ensured]
  exact List.mem_singleton_self _

end Collection

end DocumentDb
