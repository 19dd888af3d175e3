/-
  DocumentDb — a merge as writes, one after the other.

  * `Value.writeAll` and `Document.writeAll` write several values.  What they do to a field is what
    the writes do whose paths go through it (`Document.field?_writeAll`).  No key with a dot is
    changed by paths that are `Cut` at their dots.
  * `Fields.writesInto`: the writes that a merge comes down to.  A key that stands for a
    path is spelled out (`Fields.spelled`); under any other key the values are merged
    (`Fields.mergedUnder`).  Those that go through one key are the writes of the value
    merged under it, and then the spelled ones (`Fields.writesUnder_writesInto`), as a key
    comes before the paths through it.
  * **`Fields.mergeInto_eq`**: a merge that succeeds does these writes.
-/
import DocumentDb.Proofs.Document.Descend
import DocumentDb.Proofs.Document.Merge

namespace DocumentDb

/-- Values to be written, each with its path. -/
abbrev Writes := List (List String × Value)

/-! ## Several writes -/

/-- What stands in a place after several writes inside it. -/
def Value.writeAll (current : Option Value) (writes : Writes) : Option Value :=
  writes.foldl (fun current write => some (Value.write current write.1 write.2)) current

/-- The document with several values written. -/
def Document.writeAll (d : Document) (writes : Writes) : Document :=
  writes.foldl (fun d write => d.write write.1 write.2) d

/-- What is left of a write below its first segment, if it enters there. -/
def writeInside? (enters : String → Bool) : List String × Value → Option (List String × Value)
  | (first :: path, value) => if enters first then some (path, value) else none
  | ([], _) => none

/-- Those of some writes that enter there, from there on. -/
def writesInside (enters : String → Bool) (writes : Writes) : Writes :=
  writes.filterMap (writeInside? enters)

/-- Those of some writes that go through a key, from there on. -/
def writesUnder (key : String) (writes : Writes) : Writes := writesInside (· == key) writes

/-- Some writes one level further down. -/
def writesBelow (key : String) (writes : Writes) : Writes := writes.map fun w => (key :: w.1, w.2)

theorem writesInside_cons (enters : String → Bool) (first : String) (path : List String)
    (value : Value) (writes : Writes) : writesInside enters ((first :: path, value) :: writes) =
      if enters first then (path, value) :: writesInside enters writes
      else writesInside enters writes := by
  by_cases he : enters first = true
  · rw [if_pos he]
    exact List.filterMap_cons_some (if_pos he)
  · rw [if_neg he]
    exact List.filterMap_cons_none (if_neg he)

theorem writeInside?_eq_some_iff {enters : String → Bool} : ∀ {w w' : List String × Value},
    writeInside? enters w = some w' ↔ ∃ first, enters first = true ∧ w = (first :: w'.1, w'.2)
  | ([], _), _ => by simp [writeInside?]
  | (first :: path, value), (path', value') => by
    simp only [writeInside?, Option.ite_none_right_eq_some, Option.some.injEq, Prod.mk.injEq,
      List.cons.injEq]
    grind

theorem mem_writesInside_iff {enters : String → Bool} {writes : Writes} {w : List String × Value} :
    w ∈ writesInside enters writes ↔
      ∃ first, enters first = true ∧ (first :: w.1, w.2) ∈ writes := by
  refine List.mem_filterMap.trans ⟨?_, ?_⟩
  · rintro ⟨_, hmem, hinside⟩
    obtain ⟨first, he, rfl⟩ := writeInside?_eq_some_iff.1 hinside
    exact ⟨first, he, hmem⟩
  · rintro ⟨first, he, hmem⟩
    exact ⟨_, hmem, writeInside?_eq_some_iff.2 ⟨first, he, rfl⟩⟩

theorem writesUnder_append (key : String) (writes writes' : Writes) :
    writesUnder key (writes ++ writes') = writesUnder key writes ++ writesUnder key writes' :=
  List.filterMap_append

theorem writesUnder_cons (key first : String) (path : List String) (value : Value)
    (writes : Writes) :
    writesUnder key ((first :: path, value) :: writes) =
      if first = key then (path, value) :: writesUnder key writes else writesUnder key writes := by
  rw [writesUnder, writesInside_cons]
  simp only [beq_iff_eq]
  rfl

/-- No write goes through a key that is no segment of a path. -/
theorem writesUnder_eq_nil {key : String} {writes : Writes} (h : ∀ w ∈ writes, key ∉ w.1) :
    writesUnder key writes = [] := by
  refine List.eq_nil_iff_forall_not_mem.2 fun w hw => ?_
  obtain ⟨first, he, hmem⟩ := mem_writesInside_iff.1 hw
  exact h _ hmem (beq_iff_eq.1 he ▸ List.mem_cons_self)

/-- No path that is written has a segment with a dot. -/
def Cut (writes : Writes) : Prop := ∀ w ∈ writes, ∀ segment ∈ w.1, Path.isDotted segment = false

theorem Cut.inside {writes : Writes} (h : Cut writes) (enters : String → Bool) :
    Cut (writesInside enters writes) := fun w hw segment hs => by
  obtain ⟨first, -, hmem⟩ := mem_writesInside_iff.1 hw
  exact h _ hmem segment (List.mem_cons_of_mem first hs)

theorem Cut.writesUnder_eq_nil {writes : Writes} (h : Cut writes) {key : String}
    (hdotted : Path.isDotted key = true) : writesUnder key writes = [] :=
  DocumentDb.writesUnder_eq_nil fun w hw hkey => by
    rw [h w hw key hkey] at hdotted
    cases hdotted

theorem writesUnder_writesBelow (key key' : String) (writes : Writes) :
    writesUnder key (writesBelow key' writes) = if key' = key then writes else [] := by
  induction writes with
  | nil => simp [writesBelow, writesUnder, writesInside]
  | cons w writes ih =>
    have hcons : writesBelow key' (w :: writes) = (key' :: w.1, w.2) :: writesBelow key' writes :=
      rfl
    rw [hcons, writesUnder_cons, ih]
    split <;> rfl

namespace Value

theorem writeAll_append (current : Option Value) (writes writes' : Writes) :
    writeAll current (writes ++ writes') = writeAll (writeAll current writes) writes' :=
  List.foldl_append

/-- Writes further down than the document itself change its fields. -/
theorem writeAll_document : ∀ {writes : Writes} (d : Document), (∀ w ∈ writes, w.1 ≠ []) →
    writeAll (some (document d)) writes = some (document (d.writeAll writes))
  | [], _, _ => rfl
  | (path, value) :: writes, d, h => by
    obtain ⟨hfirst, hrest⟩ := List.forall_mem_cons.1 h
    obtain ⟨key, path, rfl⟩ := List.exists_cons_of_ne_nil hfirst
    exact writeAll_document (d.write (key :: path) value) hrest

end Value

/-- **Of several writes those change a field that go through its key.** -/
theorem Document.field?_writeAll (key : String) : ∀ (writes : Writes) (d : Document),
    (d.writeAll writes).field? key = Value.writeAll (d.field? key) (writesUnder key writes)
  | [], _ => rfl
  | ([], value) :: writes, d => field?_writeAll key writes d
  | (first :: path, value) :: writes, d => by
    have hcons : d.writeAll ((first :: path, value) :: writes) =
      (d.write (first :: path) value).writeAll writes := rfl
    rw [hcons, field?_writeAll key writes, writesUnder_cons, write, field?_set]
    split
    · next he =>
      subst he
      rfl
    · rfl

theorem Document.writeAll_append (d : Document) (writes writes' : Writes) :
    d.writeAll (writes ++ writes') = (d.writeAll writes).writeAll writes' :=
  List.foldl_append

/-! ## The writes of a merge -/

/-- Whether both values are documents, so that one can be merged into the other. -/
def Value.bothDocuments : Value → Option Value → Bool
  | document _, some (document _) => true
  | _, _ => false

/-- Whether a merge reads a key as a path.  It takes a key as it is if it has no dot, or if there
    are documents under it on both sides. -/
def isSpelled (key : String) (value : Value) (current : Option Value) : Bool :=
  Path.isDotted key && !value.bothDocuments current

theorem Value.bothDocuments_iff {value : Value} {current : Option Value} :
    value.bothDocuments current = true ↔
      ∃ theirs mine, value = document theirs ∧ current = some (document mine) := by
  constructor
  · intro h
    match value, current, h with
    | document theirs, some (document mine), _ => exact ⟨theirs, mine, rfl, rfl⟩
  · rintro ⟨theirs, mine, rfl, rfl⟩
    rfl

theorem Value.bothDocuments_of_no_document {value : Value} {current : Option Value}
    (h : (∀ d, value ≠ document d) ∨ ∀ d, current ≠ some (document d)) :
    value.bothDocuments current = false :=
  Bool.eq_false_iff.2 fun hboth => by
    obtain ⟨theirs, mine, hvalue, hcurrent⟩ := bothDocuments_iff.1 hboth
    exact h.elim (· theirs hvalue) (· mine hcurrent)

/-- A key with a dot is taken as it is where there are documents on both sides, and any
    other one always. -/
theorem isSpelled_eq_false_iff {key : String} {value : Value} {current : Option Value} :
    isSpelled key value current = false ↔ (Path.isDotted key = true →
      ∃ theirs mine, value = .document theirs ∧ current = some (.document mine)) := by
  rw [← Value.bothDocuments_iff, isSpelled]
  cases Path.isDotted key with
  | false => simp
  | true => simp

mutual
/-- The writes that merging a value into what stands in a place comes down to. -/
def Value.writesAt : Value → Option Value → Writes
  | .document theirs, some (.document mine) => theirs.writesInto mine
  | value, _ => [([], value)]
/-- The writes that merging fields into a document comes down to. -/
def Fields.writesInto : {bound : Option String} → Fields bound → Document → Writes
  | _, .nil, _ => []
  | _, .cons key _ value rest, d =>
    (if isSpelled key value (d.field? key) then [(Path.segments key, value)]
      else writesBelow key (value.writesAt (d.field? key))) ++ rest.writesInto d
end

/-- The writes at the paths that keys of the fields stand for. -/
def Fields.spelled : {bound : Option String} → Fields bound → Document → Writes
  | _, .nil, _ => []
  | _, .cons key _ value rest, d =>
    (if isSpelled key value (d.field? key) then [(Path.segments key, value)] else []) ++
      rest.spelled d

/-- The value that is merged under a key of a document. -/
def Fields.mergedUnder {bound : Option String} (changes : Fields bound) (d : Document)
    (key : String) : Option Value :=
  (changes.field? key).filter fun value => !isSpelled key value (d.field? key)

namespace Fields

variable {bound : Option String}

theorem writesInto_congr {d d' : Document} : ∀ {bound : Option String} {changes : Fields bound},
    (∀ key value, changes.field? key = some value → d'.field? key = d.field? key) →
    changes.writesInto d' = changes.writesInto d
  | _, .nil, _ => by rw [writesInto, writesInto]
  | _, .cons key _ value rest, h => by
    have hfirst : d'.field? key = d.field? key := h key value (by rw [field?, if_pos rfl])
    rw [writesInto, writesInto, hfirst, writesInto_congr fun later value' hv =>
      h later value' (field?_cons_of_rest _ hv)]

theorem mergedUnder_congr {changes : Fields bound} {d d' : Document} {key : String}
    (h : ∀ value, changes.field? key = some value →
      isSpelled key value (d'.field? key) = isSpelled key value (d.field? key)) :
    changes.mergedUnder d' key = changes.mergedUnder d key := by
  rw [mergedUnder, mergedUnder]
  cases hv : changes.field? key with
  | none => rfl
  | some value => rw [Option.filter, Option.filter, h value hv]

theorem spelled_congr {d d' : Document} : ∀ {bound : Option String} {changes : Fields bound},
    (∀ key value, changes.field? key = some value →
      isSpelled key value (d'.field? key) = isSpelled key value (d.field? key)) →
    changes.spelled d' = changes.spelled d
  | _, .nil, _ => rfl
  | _, .cons key _ value rest, h => by
    have hfirst := h key value (by rw [field?, if_pos rfl])
    rw [spelled, spelled, hfirst, spelled_congr fun later value' hv =>
      h later value' (field?_cons_of_rest _ hv)]

end Fields

/-! ## One entry -/

namespace Document

variable {d d' : Document} {key : String} {value : Value}

/-- Writes below a key of a document are writes in the document under it. -/
theorem writeAll_writesBelow {mine : Document} (h : d.field? key = some (.document mine))
    {writes : Writes} (hne : ∀ w ∈ writes, w.1 ≠ []) :
    d.writeAll (writesBelow key writes) = d.set key (.document (mine.writeAll writes)) := by
  refine Fields.ext _ _ fun wanted => ?_
  rw [field?_writeAll, writesUnder_writesBelow, field?_set]
  split
  · next he =>
    subst he
    rw [h, Value.writeAll_document mine hne]
  · rfl

end Document

/-! ## All entries -/

theorem Fields.ne_nil_of_mem_writesInto {d : Document} {w : List String × Value} :
    ∀ {bound : Option String} {changes : Fields bound}, w ∈ changes.writesInto d → w.1 ≠ []
  | _, .nil, h => by
    rw [writesInto] at h
    cases h
  | _, .cons key _ value rest, h => by
    rw [writesInto] at h
    rcases List.mem_append.1 h with h | h
    · split at h
      · rw [List.mem_singleton.1 h]
        exact Path.segments_ne_nil key
      · obtain ⟨w', -, rfl⟩ := List.mem_map.1 h
        exact List.cons_ne_nil key w'.1
    · exact ne_nil_of_mem_writesInto h

theorem Value.writesAt_of_not_both {value : Value} {current : Option Value}
    (h : value.bothDocuments current = false) : value.writesAt current = [([], value)] := by
  match value, current, h with
  | .document _, none, _ | .document _, some .null, _ | .document _, some (.bool _), _
  | .document _, some (.number _), _ | .document _, some (.text _), _
  | .document _, some (.array _), _ => rfl
  | .null, _, _ | .bool _, _, _ | .number _, _, _ | .text _, _, _ | .array _, _, _ => rfl

/-- The writes that one entry of some changes comes down to. -/
def entryWrites (key : String) (value : Value) (current : Option Value) : Writes :=
  if isSpelled key value current then [(Path.segments key, value)]
  else writesBelow key (value.writesAt current)

/-- Where there are no documents on both sides, the value is put. -/
theorem entryWrites_of_not_both {key : String} {value : Value} {current : Option Value}
    (h : value.bothDocuments current = false) :
    entryWrites key value current = [(Path.segments key, value)] := by
  unfold entryWrites isSpelled
  rw [h, Bool.not_false, Bool.and_true, Value.writesAt_of_not_both h]
  split
  · rfl
  · next hplain =>
    rw [Path.segments_of_not_isDotted (Bool.eq_false_iff.2 hplain)]
    rfl

theorem Document.put_eq {d d' : Document} {key : String} {value : Value}
    (hn : value.bothDocuments (d.field? key) = false) (h : d.put key value = .ok d') :
    d' = d.writeAll (entryWrites key value (d.field? key)) := by
  rw [entryWrites_of_not_both hn]
  exact (put_eq_ok_iff.1 h).2

mutual
theorem Value.mergeEntry_eq : ∀ {value : Value} {d d' : Document} {key : String},
    d.mergeEntry key value = .ok d' →
    d' = d.writeAll (entryWrites key value (d.field? key))
  | .document theirs, d, d', key, h => by
    by_cases hm : ∃ mine, d.field? key = some (.document mine)
    · obtain ⟨mine, hm⟩ := hm
      obtain ⟨merged, hmerged, rfl⟩ := (Document.mergeEntry_eq_ok_iff hm).1 h
      have hread : isSpelled key (.document theirs) (d.field? key) = false :=
        isSpelled_eq_false_iff.2 fun _ => ⟨theirs, mine, rfl, hm⟩
      rw [entryWrites, hread, if_neg Bool.false_ne_true, hm, Value.writesAt,
        Document.writeAll_writesBelow hm fun w hw => Fields.ne_nil_of_mem_writesInto hw,
        Fields.mergeInto_eq hmerged]
    · have hn : ∀ mine, d.field? key ≠ some (.document mine) := fun mine he => hm ⟨mine, he⟩
      rw [Document.mergeEntry_eq_put hn] at h
      exact Document.put_eq (Value.bothDocuments_of_no_document (Or.inr hn)) h
  | .null, _, _, _, h | .bool _, _, _, _, h | .number _, _, _, _, h | .text _, _, _, _, h
  | .array _, _, _, _, h => Document.put_eq rfl h
/-- **A merge that succeeds does the writes that it comes down to.** -/
theorem Fields.mergeInto_eq : ∀ {bound : Option String} {changes : Fields bound} {d r : Document},
    changes.mergeInto d = .ok r → r = d.writeAll (changes.writesInto d)
  | _, .nil, d, r, h => by
    cases h
    rfl
  | _, .cons key _ value rest, d, r, h => by
    obtain ⟨d', hd', hrest⟩ := bind_eq_ok_iff.1 h
    have hlater : rest.writesInto d' = rest.writesInto d :=
      Fields.writesInto_congr fun later _ hv =>
      Document.field?_mergeEntry_of_lt hd' (rest.follows_of_field? hv)
    rw [Fields.mergeInto_eq hrest, hlater, Fields.writesInto, Document.writeAll_append,
      Value.mergeEntry_eq hd', entryWrites]
end

/-! ## The writes through one key -/

namespace Fields

variable {bound : Option String} {d : Document} {key : String}

theorem writesInto_cons (first : String) (h : Follows bound first) (value : Value)
    (rest : Fields (some first)) : (cons first h value rest).writesInto d =
      entryWrites first value (d.field? first) ++ rest.writesInto d := by
  rw [writesInto]
  rfl

theorem mergedUnder_eq_some_iff {changes : Fields bound} {value : Value} :
    changes.mergedUnder d key = some value ↔
      changes.field? key = some value ∧ isSpelled key value (d.field? key) = false := by
  rw [mergedUnder, Option.filter_eq_some_iff, Bool.not_eq_true']

/-- Nothing is merged under a key that has no entry or is read as a path. -/
theorem mergedUnder_eq_none {changes : Fields bound}
    (h : ∀ value, changes.field? key = some value → isSpelled key value (d.field? key) = true) :
    changes.mergedUnder d key = none :=
  Option.eq_none_iff_forall_ne_some.2 fun value hm => by
    obtain ⟨hv, hs⟩ := mergedUnder_eq_some_iff.1 hm
    rw [h value hv] at hs
    cases hs

theorem mergedUnder_of_none {changes : Fields bound} (h : changes.field? key = none) :
    changes.mergedUnder d key = none :=
  mergedUnder_eq_none fun value hv => by
    rw [h] at hv
    cases hv

theorem mergedUnder_cons_of_ne {first : String} (hne : first ≠ key) (h : Follows bound first)
    (value : Value) (rest : Fields (some first)) :
    (cons first h value rest).mergedUnder d key = rest.mergedUnder d key := by
  rw [mergedUnder, field?, if_neg hne, mergedUnder]

/-- A key has no entry after a path through it, nor after itself. -/
theorem field?_of_not_lt {first : String} (rest : Fields (some first)) (h : ¬ first < key) :
    rest.field? key = none :=
  Option.eq_none_iff_forall_ne_some.2 fun _ hv => h (rest.follows_of_field? hv)

/-- **The writes of a merge through one key are those of the value that is merged under it, and then
    the spelled ones.** -/
theorem writesUnder_writesInto (d : Document) (key : String) :
    ∀ {bound : Option String} (changes : Fields bound), writesUnder key (changes.writesInto d) =
      (changes.mergedUnder d key).elim [] (·.writesAt (d.field? key)) ++
        writesUnder key (changes.spelled d)
  | _, .nil => rfl
  | _, .cons first h value rest => by
    rw [writesInto_cons, writesUnder_append, writesUnder_writesInto d key rest, spelled,
      writesUnder_append, entryWrites]
    by_cases hspelled : isSpelled first value (d.field? first) = true
    · obtain ⟨segment, path, hs⟩ := Path.exists_segments first
      have hdotted : Path.isDotted first = true := (Bool.and_eq_true_iff.1 hspelled).1
      have hlt : segment < first := (Path.segments_eq_cons hs).resolve_left fun he =>
        Path.ne_of_isDotted hdotted (hs ▸ List.mem_cons_self) he.2
      rw [if_pos hspelled, if_pos hspelled, hs, writesUnder_cons]
      by_cases he : first = key
      · subst he
        have hmerged : (cons first h value rest).mergedUnder d first = none :=
          mergedUnder_eq_none fun value' hv => by
            rw [field?, if_pos rfl] at hv
            cases hv
            exact hspelled
        rw [hmerged, mergedUnder_of_none (rest.field?_of_not_lt (String.lt_irrefl first)),
          if_neg (String.ne_of_lt hlt)]
        rfl
      · rw [mergedUnder_cons_of_ne he]
        split
        · next hsegment =>
          subst hsegment
          rw [mergedUnder_of_none (rest.field?_of_not_lt (String.lt_asymm hlt))]
          rfl
        · rfl
    · rw [if_neg hspelled, if_neg hspelled, writesUnder_writesBelow]
      by_cases he : first = key
      · subst he
        have hmerged : (cons first h value rest).mergedUnder d first = some value :=
          mergedUnder_eq_some_iff.2 ⟨if_pos rfl, Bool.eq_false_iff.2 hspelled⟩
        rw [if_pos rfl, hmerged,
          mergedUnder_of_none (rest.field?_of_not_lt (String.lt_irrefl first))]
        rfl
      · rw [if_neg he, mergedUnder_cons_of_ne he]
        rfl

theorem mem_spelled_iff {changes : Fields bound} {w : List String × Value} :
    w ∈ changes.spelled d ↔ ∃ key value, changes.field? key = some value ∧
      isSpelled key value (d.field? key) = true ∧ w = (Path.segments key, value) := by
  simp only [← mem_toList_iff]
  induction changes using Fields.ind with
  | nil => simp [spelled, toList]
  | cons first _ value rest ih =>
    have hfirst : (w ∈ if isSpelled first value (d.field? first) then [(Path.segments first, value)]
                       else []) ↔
        isSpelled first value (d.field? first) = true ∧ w = (Path.segments first, value) := by
      split
      · next h => simp [h]
      · next h => simp [h]
    rw [spelled, List.mem_append, hfirst, ih, toList]
    constructor
    · rintro (h | ⟨key, value', hm, hrest⟩)
      · exact ⟨first, value, List.mem_cons_self, h⟩
      · exact ⟨key, value', List.mem_cons_of_mem _ hm, hrest⟩
    · rintro ⟨key, value', hm, h⟩
      rcases List.mem_cons.1 hm with he | hm
      · cases he
        exact Or.inl h
      · exact Or.inr ⟨key, value', hm, h⟩

theorem cut_spelled {changes : Fields bound} : Cut (changes.spelled d) := fun w hw segment hs => by
  obtain ⟨key, value, -, -, rfl⟩ := mem_spelled_iff.1 hw
  exact Path.isDotted_of_mem_segments hs

end Fields

end DocumentDb
