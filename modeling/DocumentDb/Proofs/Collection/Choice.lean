/-
  DocumentDb — a lookup finds what the filters of its probe admit.

  * `KeySpec.Chooses`: values other than null and the arrays, each for another key field of
    an index.
  * A probe into which these are put, where no key field leads through another, supplies the fields
    chosen, each with the value chosen, and no other key field (`Chooses.exists_probe`).
  * The filter of one equality admits a document, if it judges it at all, just when an index finds
    an equal value there (`Filter.admits_equal_iff_resolve`).
  * **`lookup_of_choice`**: so a lookup of the probe finds, of the stored documents, those that
    every filter of the choice admits.
-/
import DocumentDb.Proofs.Collection.Agreement
import DocumentDb.Proofs.Filter.Asking

namespace DocumentDb

open DocumentDb.Filter (isOperatorKey)

/-! ## Probes with values chosen -/

namespace KeySpec

/-- Some key fields of an index, at least one, with a value for each that an index can
    serve, as all scalars are. -/
structure Chooses (spec : KeySpec) (choice : List (KeyField × Value)) : Prop where
  nonempty : choice ≠ []
  fields : ∀ t ∈ choice, t.1 ∈ spec.fields
  distinct : (choice.map (·.1)).Nodup
  usable : ∀ t ∈ choice, t.2.isUsable = true

variable {spec : KeySpec} {choice : List (KeyField × Value)}

/-- **A probe into which values are put supplies the fields chosen, with these values, and
    no others.** -/
theorem Chooses.exists_probe (h : spec.Chooses choice) (ha : spec.Apart) :
    ∃ probe, Document.empty.puts choice = .ok probe ∧
      (∀ t ∈ choice, probe.containsField t.1.path = true ∧ probe.resolve t.1.segments = [t.2]) ∧
      ∀ f ∈ spec.fields, probe.containsField f.path = true → f ∈ choice.map (·.1) := by
  have hchosen : choice.Pairwise fun t u => Value.Apart t.1.segments u.1.segments :=
    (List.pairwise_map.1 h.distinct).imp_of_mem fun {t u} ht hu hne =>
      ha.of_ne (h.fields t ht) (h.fields u hu) hne
  obtain ⟨probe, hputs, hplain, hfound, hother⟩ := Document.puts_of_apart (d := Document.empty)
    (fun _ _ => rfl) hchosen fun t _ => Plan.open_empty t.1.segments
  refine ⟨probe, hputs, fun t ht => ⟨?_, ?_⟩, ?_⟩
  · exact Document.containsField_of_descend hplain t.1.valid (hfound t ht)
      (Value.isNull_of_isUsable (h.usable t ht))
  · exact Document.resolve_of_descend_isUsable (hfound t ht) (h.usable t ht)
  · intro f hf hsupplied
    by_contra hnot
    -- nothing was put at the path of any other field, nor an array before it
    obtain ⟨hsame, hclear⟩ := hother f.segments fun t ht =>
      ha.of_ne (h.fields t ht) hf fun he => hnot (he ▸ List.mem_map_of_mem ht)
    have hnone : (Value.document Document.empty).descend f.segments = none := by
      obtain ⟨first, rest, hs⟩ := Path.exists_segments f.path
      rw [KeyField.segments, hs]
      rfl
    rw [Document.containsField_of_descend_none hplain f.valid (hclear (Plan.open_empty f.segments))
      (hsame.trans hnone)] at hsupplied
    cases hsupplied

end KeySpec

/-! ## Filters of one equality -/

namespace Filter

/-- The filter of one equality at a key field judges every document, unless its path is taken for an
    operator. -/
theorem judges_equal_iff {d : Document} {f : KeyField} {v : Value} :
    (∃ accept, Matcher.equality d (equal f.path v) = .ok accept) ↔
      isOperatorKey f.path = false := by
  constructor
  · rintro ⟨accept, h⟩
    cases hkey : isOperatorKey f.path with
    | false => rfl
    | true =>
      have hfault : (equal f.path v).admits d = .error (.unsupportedOperator f.path) := if_pos hkey
      rw [Matcher.equality, hfault] at h
      cases h
  · intro hkey
    exact exists_admits_equal f.valid hkey

/-- The filter of one equality, where it judges a document, admits it just when an index
    finds an equal value. -/
theorem admits_equal_iff_resolve {d : Document} {f : KeyField} {v : Value} (hv : v.isUsable = true)
    (hjudged : ∃ accept, Matcher.equality d (equal f.path v) = .ok accept) :
    Matcher.equality d (equal f.path v) = .ok true ↔
      ∃ w ∈ d.resolve f.segments, (w == v) = true := by
  rw [Matcher.equality, admits_equal_iff (judges_equal_iff.1 hjudged),
    Document.meets_iff_exists_mem_resolve hv, and_iff_right f.valid]
  rfl

end Filter

/-! ## Lookup and evaluation -/

namespace Collection

section
variable [Collator] [Std.TransCmp Collator.weigh] {c : Collection}

/-- **Where no key field of an index leads through another, a lookup of a probe into which values
    are put at some of them finds just the stored documents that all filters asking for these values
    admit, each once.** -/
theorem lookup_of_choice (h : c.InStep) {i : Index} (hi : i ∈ c.registry.indexes)
    (ha : i.spec.Apart) {choice : List (KeyField × Value)} (hchoice : i.spec.Chooses choice)
    (hjudged : ∀ e ∈ c.stored, ∀ t ∈ choice,
      ∃ accept, Matcher.equality e.2.document (Filter.equal t.1.path t.2) = .ok accept) :
    ∃ probe, Document.empty.puts choice = .ok probe ∧ (i.lookup probe).Nodup ∧
      ∀ id, id ∈ i.lookup probe ↔ ∃ cell, (id, cell) ∈ c.stored ∧
        ∀ t ∈ choice, Matcher.equality cell.document (Filter.equal t.1.path t.2) = .ok true := by
  obtain ⟨probe, hputs, hchosen, hother⟩ := hchoice.exists_probe ha
  refine ⟨probe, hputs, Index.lookup_nodup i probe, fun id => ?_⟩
  rw [h.mem_lookup_iff_shares hi]
  refine exists_congr fun cell => and_congr_right fun hcell => ?_
  have hadmits : ∀ t ∈ choice, Matcher.equality cell.document (Filter.equal t.1.path t.2) =
      .ok true ↔ ∃ w ∈ cell.document.resolve t.1.segments, (w == t.2) = true :=
    fun t ht => Filter.admits_equal_iff_resolve (hchoice.usable t ht)
      (hjudged (id, cell) hcell t ht)
  constructor
  · rintro ⟨-, hshares⟩ t ht
    obtain ⟨hsupplied, hvalues⟩ := hchosen t ht
    obtain ⟨w, hw, v, hv, heq⟩ := hshares t.1 (hchoice.fields t ht) hsupplied
    rw [hvalues, List.mem_singleton] at hv
    exact (hadmits t ht).2 ⟨w, hw, hv ▸ heq⟩
  · intro hall
    constructor
    · obtain ⟨t, ht⟩ := List.exists_mem_of_ne_nil _ hchoice.nonempty
      obtain ⟨w, hw, heq⟩ := (hadmits t ht).1 (hall t ht)
      exact KeySpec.covers_of_mem_resolve (hchoice.fields t ht) hw
        (Value.isNull_of_isUsable (Value.isUsable_of_beq heq (hchoice.usable t ht)))
    · intro f hf hsupplied
      obtain ⟨t, ht, rfl⟩ := List.mem_map.1 (hother f hf hsupplied)
      obtain ⟨w, hw, heq⟩ := (hadmits t ht).1 (hall t ht)
      exact ⟨w, hw, t.2, (hchosen t ht).2 ▸ List.mem_singleton_self t.2, heq⟩

end

/-- The years of the copies of a book, latest first. -/
def copyYear : KeyField := ⟨"copies.year", .descending, by decide⟩

/-- The years of the copies of a book and its title. -/
def copySpec : KeySpec :=
  ⟨[copyYear, ⟨"title", .ascending, by decide⟩], false, "copies", by simp, by decide⟩

/-- Two books, of which the first has copies, and an index over their years and the titles. -/
def shelved : Collection :=
  let copy := fun year => Value.document (Document.single "year" (.int year))
  let documents : List Document :=
    [.ofList [("_id", .text "1"), ("copies", .array [copy 1, copy 2]), ("title", .text "a")],
      .ofList [("_id", .text "2"), ("title", .text "a")]]
  ((Collection.new "notes" {} .equality).step (.operation (.ensureSpec copySpec))).step
    (.operation (.insertMany ⟨fun _ => "", 0⟩ documents))

theorem shelved_reachable : shelved.Reachable Step.IsOperation := by
  unfold shelved
  refine .step _ (.step _ (.new "notes" {} .equality) ?_) ?_
  · trivial
  · trivial

/-- A probe of one year leads to the book that has a copy of it. -/
theorem shelved_lookup_of_year : ∃ i ∈ shelved.registry.indexes, i.spec.Apart ∧
    i.spec.Chooses [(copyYear, .int 2)] ∧
      (∀ e ∈ shelved.stored, ∀ t ∈ [(copyYear, Value.int 2)],
        ∃ accept, Matcher.equality e.2.document (Filter.equal t.1.path t.2) = .ok accept) ∧
      ∃ probe, Document.empty.puts [(copyYear, .int 2)] = .ok probe ∧ (i.lookup probe).Nodup ∧
        ∀ id, id ∈ i.lookup probe ↔ id = "1" := by
  have hspecs : shelved.registry.indexes.map (·.spec) = [copySpec] := by decide +kernel
  obtain ⟨i, hindexes, hspec⟩ := List.map_eq_singleton_iff.1 hspecs
  have hi : i ∈ shelved.registry.indexes := hindexes ▸ List.mem_singleton_self i
  have hapart : i.spec.Apart := by
    rw [hspec]
    unfold KeySpec.Apart
    decide
  have hchoice : i.spec.Chooses [(copyYear, .int 2)] := by
    rw [hspec]
    exact ⟨by simp, by simp [copySpec], by simp, by simp [Value.isUsable, Value.int]⟩
  have hjudged : ∀ e ∈ shelved.stored, ∀ t ∈ [(copyYear, Value.int 2)],
      ∃ accept, Matcher.equality e.2.document (Filter.equal t.1.path t.2) = .ok accept := by
    intro e _ t ht
    rw [List.mem_singleton.1 ht]
    exact Filter.judges_equal_iff.2 (by decide)
  have haccepted : (shelved.stored.filter fun e =>
      accepts (Matcher.equality · (Filter.equal copyYear.path (.int 2))) e.2.document).map (·.1) =
        ["1"] := by
    decide +kernel
  obtain ⟨probe, hprobe, hnodup, hfound⟩ :=
    lookup_of_choice shelved_reachable.inStep hi hapart hchoice hjudged
  refine ⟨i, hi, hapart, hchoice, hjudged, probe, hprobe, hnodup, fun id => ?_⟩
  rw [hfound, ← List.mem_singleton, ← haccepted]
  simp [accepts_iff]

end Collection

end DocumentDb
