/-
  DocumentDb — the segments of a path.

  * A path is its first segment, or the segment comes before it in the order of keys
    (`segments_eq_cons`).  So whatever a document has under a key was there before the paths through
    that key are written, if keys are taken in order.
  * The segments of a path one level below another are those of both (`segments_child`), those of
    joined keys without dots are the keys (`segments_join`), and no segment has a dot
    (`isDotted_of_mem_segments`).
  * Keys that are put below a path one after the other are joined to it (`foldl_below`).  From the
    root on that goes for the keys from the first that is not empty (`foldl_below_root`).
-/
import DocumentDb.Text.Path

namespace DocumentDb.Path

theorem cut_eq_cons :
    ∀ {cs first : List Char} {others : List (List Char)}, cut cs = first :: others →
    (others = [] ∧ first = cs) ∨ ∃ rest, cs = first ++ '.' :: rest
  | [], first, others, h => by
    obtain ⟨rfl, rfl⟩ := List.cons.inj h
    exact Or.inl ⟨rfl, rfl⟩
  | c :: rest, first, others, h => by
    simp only [cut] at h
    split at h
    · next dot =>
      obtain ⟨rfl, -⟩ := List.cons.inj h
      exact Or.inr ⟨rest, by rw [dot]; rfl⟩
    · split at h
      · next hn => exact absurd hn (cut_ne_nil rest)
      · next first' others' hc =>
        obtain ⟨rfl, rfl⟩ := List.cons.inj h
        rcases cut_eq_cons hc with ⟨ho, rfl⟩ | ⟨tail, rfl⟩
        · exact Or.inl ⟨ho, rfl⟩
        · exact Or.inr ⟨tail, rfl⟩

/-- A path of one segment is that segment; the first of several segments comes before the path. -/
theorem segments_eq_cons {path first : String} {others : List String}
    (h : segments path = first :: others) : (others = [] ∧ first = path) ∨ first < path := by
  unfold segments at h
  obtain ⟨first', others', hc, rfl, rfl⟩ := List.map_eq_cons_iff.1 h
  rcases cut_eq_cons hc with ⟨rfl, rfl⟩ | ⟨rest, hp⟩
  · exact Or.inl ⟨rfl, String.ofList_toList⟩
  · refine Or.inr (String.lt_iff.2 ?_)
    have hlt : first' ++ [] < first' ++ '.' :: rest :=
      List.append_left_lt (List.nil_lt_cons '.' rest)
    rw [hp, String.toList_ofList]
    rwa [List.append_nil] at hlt

theorem eq_of_segments_eq_singleton {path segment : String} (h : segments path = [segment]) :
    path = segment := by
  have hj := join_segments path
  rw [h] at hj
  exact hj.symm

theorem exists_segments (path : String) : ∃ first rest, segments path = first :: rest := by
  obtain ⟨first, rest, hc⟩ := List.exists_cons_of_ne_nil (cut_ne_nil path.toList)
  refine ⟨String.ofList first, rest.map String.ofList, ?_⟩
  rw [segments, hc, List.map_cons]

theorem segments_ne_nil (path : String) : segments path ≠ [] := by
  obtain ⟨first, rest, hs⟩ := exists_segments path
  rw [hs]
  exact List.cons_ne_nil first rest

theorem segments_of_not_isDotted {path : String} (h : isDotted path = false) :
    segments path = [path] := by
  have hdot : '.' ∉ path.toList := by simpa [isDotted] using h
  obtain ⟨first, others, hc⟩ := List.exists_cons_of_ne_nil (cut_ne_nil path.toList)
  unfold segments
  rcases cut_eq_cons hc with ⟨rfl, rfl⟩ | ⟨rest, hp⟩
  · simp [hc]
  · exact absurd (hp ▸ List.mem_append_right first List.mem_cons_self) hdot

/-! ## Dots -/

theorem cut_append : ∀ cs cs' : List Char, cut (cs ++ '.' :: cs') = cut cs ++ cut cs'
  | [], cs' => by simp [cut]
  | c :: cs, cs' => by
    rw [List.cons_append, cut, cut, cut_append cs cs']
    split
    · rfl
    · obtain ⟨first, others, hc⟩ := List.exists_cons_of_ne_nil (cut_ne_nil cs)
      simp [hc]

theorem segments_child (path key : String) :
    segments (child path key) = segments path ++ segments key := by
  have hl : (child path key).toList = path.toList ++ '.' :: key.toList := by
    simp [child, String.toList_append]
  unfold segments
  rw [hl, cut_append, List.map_append]

theorem isValid_child (path key : String) :
    isValid (child path key) = (isValid path && isValid key) := by
  unfold isValid
  rw [segments_child, List.all_append]

theorem child_ne_empty (path key : String) : child path key ≠ "" := by
  intro h
  have hl := congrArg String.toList h
  simp [child, String.toList_append] at hl

/-! ## Joining -/

theorem join_singleton (key : String) : join [key] = key := String.intercalate_singleton

theorem join_cons_cons (first second : String) (rest : List String) :
    join (first :: second :: rest) = child first (join (second :: rest)) :=
  String.intercalate_cons_cons

theorem join_child_cons (path key : String) (rest : List String) :
    join (child path key :: rest) = join (path :: key :: rest) := by
  cases rest with
  | nil => simp [join, child]
  | cons next rest => simp [join_cons_cons, child, String.append_assoc]

/-- The segments of keys without dots that are joined are the keys. -/
theorem segments_join : ∀ {keys : List String}, keys ≠ [] → (∀ key ∈ keys, isDotted key = false) →
    segments (join keys) = keys
  | [key], _, h => by
    rw [join_singleton, segments_of_not_isDotted (h key List.mem_cons_self)]
  | key :: next :: rest, _, h => by
    obtain ⟨hkey, hrest⟩ := List.forall_mem_cons.1 h
    rw [join_cons_cons, segments_child, segments_of_not_isDotted hkey,
      segments_join (List.cons_ne_nil next rest) hrest]
    rfl

/-- Where a path is not empty, the keys below it are joined to it. -/
theorem foldl_below : ∀ {keys : List String} {path : String}, path ≠ "" →
    keys.foldl below path = join (path :: keys)
  | [], path, _ => (join_singleton path).symm
  | key :: keys, path, h => by
    have hbelow : below path key = child path key := if_neg fun he => h (String.isEmpty_iff.1 he)
    rw [List.foldl_cons, hbelow, foldl_below (child_ne_empty path key), join_child_cons]

/-- The path that keys make from the root on.  Empty keys in front of the others leave no
    trace in it. -/
def ofKeys (keys : List String) : String := join (keys.dropWhile (·.isEmpty))

theorem foldl_below_root : ∀ keys : List String, keys.foldl below "" = ofKeys keys
  | [] => rfl
  | key :: keys => by
    have hbelow : below "" key = key := rfl
    rw [List.foldl_cons, hbelow, ofKeys, List.dropWhile_cons]
    cases he : key.isEmpty with
    | true => rw [if_pos rfl, String.isEmpty_iff.1 he, foldl_below_root keys, ofKeys]
    | false => exact foldl_below fun hempty => Bool.eq_false_iff.1 he (String.isEmpty_iff.2 hempty)

theorem ofKeys_of_ne {key : String} (h : key ≠ "") (keys : List String) :
    ofKeys (key :: keys) = join (key :: keys) := by
  rw [ofKeys, List.dropWhile_cons_of_neg (by simpa using h)]

/-- A path that starts with an empty key has an empty segment. -/
theorem isValid_join_empty_cons (keys : List String) : isValid (join ("" :: keys)) = false := by
  cases keys with
  | nil => rfl
  | cons key rest => rw [join_cons_cons, isValid_child]; rfl

/-! ## No segment has a dot -/

theorem not_mem_of_mem_cut : ∀ {cs piece : List Char}, piece ∈ cut cs → '.' ∉ piece
  | [], piece, h => by
    rw [List.mem_singleton.1 h]
    exact List.not_mem_nil
  | c :: cs, piece, h => by
    obtain ⟨first, others, hc⟩ := List.exists_cons_of_ne_nil (cut_ne_nil cs)
    simp only [cut, hc] at h
    split at h
    · rcases List.mem_cons.1 h with rfl | h
      · exact List.not_mem_nil
      · exact not_mem_of_mem_cut (hc ▸ h)
    · next hdot =>
      rcases List.mem_cons.1 h with rfl | h
      · have := not_mem_of_mem_cut (hc ▸ List.mem_cons_self)
        simpa [Ne.symm hdot] using this
      · exact not_mem_of_mem_cut (hc ▸ List.mem_cons_of_mem _ h)

theorem isDotted_of_mem_segments {path segment : String} (h : segment ∈ segments path) :
    isDotted segment = false := by
  obtain ⟨piece, hp, rfl⟩ := List.mem_map.1 h
  simpa [isDotted] using not_mem_of_mem_cut hp

/-- A segment of a path without empty segments is no empty key. -/
theorem isValid_of_mem_segments {path segment : String} (h : isValid path = true)
    (hs : segment ∈ segments path) : isValid segment = true := by
  rw [isValid, segments_of_not_isDotted (isDotted_of_mem_segments hs), List.all_eq_true]
  rintro _ hmem
  rw [List.mem_singleton.1 hmem]
  exact List.all_eq_true.1 h segment hs

/-- A path with a dot is none of its segments. -/
theorem ne_of_isDotted {path segment : String} (hdotted : isDotted path = true)
    (h : segment ∈ segments path) : segment ≠ path := by
  rintro rfl
  rw [isDotted_of_mem_segments h] at hdotted
  cases hdotted

end DocumentDb.Path
