/-
  DocumentDb — the probe that a plan builds.

  * `KeySpec.Apart`: no key field leads through another.
  * `Document.puts` puts values at the paths of key fields, one after the other.  Over fields that
    are apart each value stands at its path in the end, and every other path leads to what it led to
    (`puts_of_apart`).
  * `probe_of_apart`: so over such fields the probe of a plan has at the path of each field exactly
    the value that the filter asks for there.
  * `probe_of_open`: over any fields before them, values without arrays leave a document
    without arrays.
-/
import DocumentDb.Collection.Plan
import DocumentDb.Proofs.Document.Descend
import Mathlib.Data.List.Pairwise

namespace DocumentDb

open Value (Apart Clear Open)

/-- No key field of an index leads through another one. -/
def KeySpec.Apart (spec : KeySpec) : Prop :=
  ∀ f ∈ spec.fields, ∀ g ∈ spec.fields, f.segments <+: g.segments → f = g

theorem KeySpec.Apart.of_ne {spec : KeySpec} (h : spec.Apart) {f g : KeyField}
    (hf : f ∈ spec.fields) (hg : g ∈ spec.fields) (hne : f ≠ g) :
    Value.Apart f.segments g.segments :=
  ⟨fun hp => hne (h f hf g hg hp), fun hp => hne (h g hg f hf hp).symm⟩

theorem KeySpec.Apart.pairwise {spec : KeySpec} (h : spec.Apart) :
    spec.fields.Pairwise fun f g => Value.Apart f.segments g.segments := by
  have hnodup : spec.fields.Pairwise fun f g => f ≠ g :=
    spec.distinct.of_map
  exact hnodup.imp_of_mem fun {f g} hf hg hne => h.of_ne hf hg hne

theorem KeySpec.apart_of_pairwise {spec : KeySpec}
    (h : spec.fields.Pairwise fun f g => Value.Apart f.segments g.segments) : spec.Apart := by
  have : Std.Symm fun f g : KeyField => Value.Apart f.segments g.segments := ⟨fun _ _ => .symm⟩
  intro f hf g hg hp
  by_contra hne
  exact (h.forall hf hg hne).1 hp

/-! ## Values put one after the other -/

namespace Document

/-- The document with given values put at the paths of some key fields, one after the other. -/
def puts (d : Document) (choice : List (KeyField × Value)) : Except Fault Document :=
  choice.foldlM (fun d t => d.put t.1.path t.2) d

theorem puts_cons {d : Document} {t : KeyField × Value} {choice : List (KeyField × Value)} :
    d.puts (t :: choice) = (d.write t.1.segments t.2).puts choice := by
  unfold puts
  rw [List.foldlM_cons, put_eq_ok_iff.2 ⟨t.1.valid, rfl⟩]
  rfl

/-- **Where no path leads through another, each value stands at its path in the end, and no other
    path is changed.** -/
theorem puts_of_apart : ∀ {choice : List (KeyField × Value)} {d : Document}, d.Plain →
    (choice.Pairwise fun t u => Apart t.1.segments u.1.segments) →
    (∀ t ∈ choice, Clear (some (.document d)) t.1.segments) →
    ∃ p, d.puts choice = .ok p ∧ p.Plain ∧
      (∀ t ∈ choice, (Value.document p).descend t.1.segments = some t.2) ∧
      ∀ path, (∀ t ∈ choice, Apart t.1.segments path) →
        (Value.document p).descend path = (Value.document d).descend path ∧
          (Clear (some (.document d)) path → Clear (some (.document p)) path)
  | [], d, hp, _, _ => ⟨d, rfl, hp, nofun, fun _ _ => ⟨rfl, id⟩⟩
  | (f, value) :: choice, d, hp, ha, hc => by
    obtain ⟨hfirst, hrest⟩ := List.pairwise_cons.1 ha
    obtain ⟨hclear, hclears⟩ := List.forall_mem_cons.1 hc
    have hwrite := write_eq_document d f.path value
    have hclears' : ∀ t ∈ choice,
        Clear (some (.document (d.write f.segments value))) t.1.segments :=
      fun t ht => hwrite ▸ Value.clear_write (hclears t ht) (hfirst t ht)
    obtain ⟨p, hputs, hplain, hfound, hother⟩ :=
      puts_of_apart (hp.write f.path value) hrest hclears'
    refine ⟨p, puts_cons.trans hputs, hplain, List.forall_mem_cons.2 ⟨?_, hfound⟩, ?_⟩
    · have hself : ∀ t ∈ choice, Apart t.1.segments f.segments := fun t ht => (hfirst t ht).symm
      rw [(hother f.segments hself).1, ← hwrite]
      exact Value.descend_write hclear
    · intro path hpath
      obtain ⟨hf, hrest⟩ := List.forall_mem_cons.1 hpath
      obtain ⟨hsame, hkept⟩ := hother path hrest
      rw [hsame, ← hwrite]
      refine ⟨Value.descend_write_of_apart hclear hf, fun hpath => hkept ?_⟩
      exact hwrite ▸ Value.clear_write hpath hf

end Document

/-! ## The probe of a plan -/

namespace Plan

variable {equalities : List (String × Value)}

theorem probe_cons {f : KeyField} {fields : List KeyField} {d : Document} {value : Value}
    (h : equalities.lookup f.path = some value) :
    probe equalities d (f :: fields) = probe equalities (d.write f.segments value) fields := by
  rw [probe, h]
  simp only
  rw [Document.put_eq_ok_iff.2 ⟨f.valid, rfl⟩]
  rfl

/-- The probe has the values asked for put at the key fields in their order. -/
theorem probe_eq_puts : ∀ {fields : List KeyField} {d : Document},
    (∀ f ∈ fields, (equalities.lookup f.path).isSome = true) →
    probe equalities d fields =
      d.puts (fields.map fun f => (f, (equalities.lookup f.path).getD .null))
  | [], _, _ => rfl
  | f :: fields, d, h => by
    obtain ⟨hsome, hsomes⟩ := List.forall_mem_cons.1 h
    obtain ⟨value, hv⟩ := Option.isSome_iff_exists.1 hsome
    rw [probe_cons hv, probe_eq_puts hsomes, List.map_cons, Document.puts_cons, hv,
      Option.getD_some]

/-- **Where no key field leads through another, the probe has at each of them the value asked
    for.** -/
theorem probe_of_apart {fields : List KeyField} {d : Document} (hp : d.Plain)
    (ha : fields.Pairwise fun f g => Apart f.segments g.segments)
    (hc : ∀ f ∈ fields, Clear (some (.document d)) f.segments)
    (hs : ∀ f ∈ fields, (equalities.lookup f.path).isSome = true) :
    ∃ p, probe equalities d fields = .ok p ∧ p.Plain ∧
      ∀ f ∈ fields, (Value.document p).descend f.segments = equalities.lookup f.path := by
  let choice := fields.map fun f => (f, (equalities.lookup f.path).getD .null)
  have hapart : choice.Pairwise fun t u => Apart t.1.segments u.1.segments := List.pairwise_map.2 ha
  have hclear : ∀ t ∈ choice, Clear (some (.document d)) t.1.segments := List.forall_mem_map.2 hc
  obtain ⟨p, hputs, hplain, hvalues, -⟩ := Document.puts_of_apart hp hapart hclear
  refine ⟨p, (probe_eq_puts hs).trans hputs, hplain, fun f hf => ?_⟩
  obtain ⟨value, hv⟩ := Option.isSome_iff_exists.1 (hs f hf)
  rw [hvalues _ (List.mem_map_of_mem hf), hv, Option.getD_some]

theorem open_empty : Open (some (.document Document.empty)) := by
  intro path
  cases path with
  | nil => trivial
  | cons key path => exact Value.clear_none path

/-- Values without arrays leave a document without arrays to the fields that follow. -/
theorem probe_of_open (rest : List KeyField) : ∀ {fields : List KeyField} {d : Document}, d.Plain →
    Open (some (.document d)) →
    (∀ f ∈ fields, ∃ value, equalities.lookup f.path = some value ∧ Open (some value)) →
    ∃ d' : Document, d'.Plain ∧ Open (some (.document d')) ∧
      probe equalities d (fields ++ rest) = probe equalities d' rest
  | [], d, hp, ho, _ => ⟨d, hp, ho, rfl⟩
  | f :: fields, d, hp, ho, hv => by
    obtain ⟨⟨value, hl, hvalue⟩, hvalues⟩ := List.forall_mem_cons.1 hv
    have hopen : Open (some (.document (d.write f.segments value))) :=
      Document.write_eq_document d f.path value ▸ ho.write hvalue
    obtain ⟨d', hp', ho', hprobe⟩ := probe_of_open rest (hp.write f.path value) hopen hvalues
    exact ⟨d', hp', ho', (probe_cons hl).trans hprobe⟩

/-- The probe has the values asked for at the last fields, if these are apart and no array is asked
    for before them. -/
theorem probe_of_append {fields rest : List KeyField}
    (hv : ∀ f ∈ fields, ∃ value, equalities.lookup f.path = some value ∧ Open (some value))
    (ha : rest.Pairwise fun f g => Apart f.segments g.segments)
    (hs : ∀ f ∈ rest, (equalities.lookup f.path).isSome = true) :
    ∃ p, probe equalities .empty (fields ++ rest) = .ok p ∧ p.Plain ∧
      ∀ f ∈ rest, (Value.document p).descend f.segments = equalities.lookup f.path := by
  obtain ⟨d, hp, ho, hprobe⟩ :=
    probe_of_open rest (d := Document.empty) (fun _ _ => rfl) open_empty hv
  obtain ⟨p, hprobe', hplain, hvalues⟩ := probe_of_apart hp ha (fun f _ => ho f.segments) hs
  exact ⟨p, hprobe.trans hprobe', hplain, hvalues⟩

end Plan

end DocumentDb
