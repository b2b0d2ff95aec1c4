/-
Bolide.Rfb.ChordTheorems — the grammar of a chord.

A `+` is both a separator and a key, so a chord is split at every `+` and the
plus key leaves two empty segments behind. `Chord` is the grammar itself;
the segments of a chord are those of its keys, one after another, and from
them the keys are found again.
-/
import Bolide.Rfb.Keysym

namespace Bolide.Rfb

/-! ## The grammar -/

/-- A name that no `+` is part of. -/
structure KeyName where
  chars : List Char
  nonempty : chars ≠ []
  noPlus : '+' ∉ chars

/-- One key of a chord. -/
inductive ChordKey where
  | plus
  | name (key : KeyName)

namespace ChordKey

/-- How the key is written. -/
def spelling : ChordKey → List Char
  | plus => ['+']
  | name key => key.chars

/-- The keysym of the key, if its name is known. -/
def keysym? : ChordKey → Option UInt32
  | plus => some Rfb.plus
  | name key => keysymFor (String.ofList key.chars)

/-- The segments the key leaves between separators. -/
def segments : ChordKey → List (List Char)
  | plus => [[], []]
  | name key => [key.chars]

end ChordKey

/-- `chord ::= key ('+' key)*` -/
inductive Chord : List Char → List ChordKey → Prop
  | one (key : ChordKey) : Chord key.spelling [key]
  | more {s : List Char} {keys : List ChordKey} (key : ChordKey) : Chord s keys →
      Chord (key.spelling ++ '+' :: s) (key :: keys)

/-! ## Segments -/

/-- No segment contains the separator. -/
theorem not_mem_of_mem_splitOn {α : Type} [DecidableEq α] {sep : α} {s seg : List α}
    (h : seg ∈ s.splitOn sep) : sep ∉ seg := by
  induction s generalizing seg with
  | nil =>
      rw [List.splitOn_nil, List.mem_singleton] at h
      subst h
      exact List.not_mem_nil
  | cons a s ih =>
      rw [List.splitOn_cons_eq_if_modifyHead] at h
      split at h
      · rcases List.mem_cons.mp h with rfl | h
        · exact List.not_mem_nil
        · exact ih h
      · next ha =>
          cases hs : s.splitOn sep with
          | nil => exact absurd hs (List.splitOn_ne_nil sep s)
          | cons head tail =>
              rw [hs, List.modifyHead_cons] at h
              rcases List.mem_cons.mp h with rfl | h
              · have hhead := ih (hs ▸ List.mem_cons_self)
                simp only [List.mem_cons, not_or]
                exact ⟨fun heq => ha (by simp [heq]), hhead⟩
              · exact ih (hs ▸ List.mem_cons_of_mem _ h)

/-- The segments of a chord are those of its keys. -/
theorem Chord.split {s : List Char} {keys : List ChordKey} (h : Chord s keys) :
    s.splitOn '+' = keys.flatMap ChordKey.segments := by
  induction h with
  | one key =>
      cases key with
      | plus => rfl
      | name key => exact List.splitOn_eq_singleton key.noPlus
  | @more s keys key _ ih =>
      rw [List.flatMap_cons, ← ih]
      cases key with
      | plus => simp [ChordKey.spelling, ChordKey.segments, List.splitOn_cons_eq_if_modifyHead]
      | name key => exact List.splitOn_append_cons_self_of_not_mem key.noPlus s

theorem segments_ne_nil {keys : List ChordKey} (h : keys ≠ []) :
    keys.flatMap ChordKey.segments ≠ [] := by
  cases keys with
  | nil => exact absurd rfl h
  | cons key keys =>
      cases key with
      | plus => exact List.cons_ne_nil _ _
      | name key => exact List.cons_ne_nil _ _

/-- Joined again, the segments of keys are a chord. -/
theorem chord_intercalate {keys : List ChordKey} (h : keys ≠ []) :
    Chord (['+'].intercalate (keys.flatMap ChordKey.segments)) keys := by
  induction keys with
  | nil => exact absurd rfl h
  | cons key keys ih =>
      by_cases hkeys : keys = []
      · subst hkeys
        cases key with
        | plus => exact .one .plus
        | name key =>
            have hone := Chord.one (.name key)
            simpa [ChordKey.segments, ChordKey.spelling] using hone
      · have hmore := Chord.more key (ih hkeys)
        have hrest := segments_ne_nil hkeys
        cases key with
        | plus =>
            rw [List.flatMap_cons]
            simpa [ChordKey.segments, ChordKey.spelling, List.intercalate_cons_of_ne_nil, hrest]
              using hmore
        | name key =>
            rw [List.flatMap_cons]
            simpa [ChordKey.segments, ChordKey.spelling, List.intercalate_cons_of_ne_nil, hrest]
              using hmore

/-- What splits into the segments of keys is the chord of these keys. -/
theorem chord_of_split {s : List Char} {keys : List ChordKey} (hkeys : keys ≠ [])
    (h : s.splitOn '+' = keys.flatMap ChordKey.segments) : Chord s keys := by
  have hchord := chord_intercalate hkeys
  rwa [← h, List.intercalate_splitOn] at hchord

/-- Keys that leave the same segments are the same. -/
theorem segments_inj {keys keys' : List ChordKey}
    (h : keys.flatMap ChordKey.segments = keys'.flatMap ChordKey.segments) : keys = keys' := by
  induction keys generalizing keys' with
  | nil =>
      by_contra hne
      exact segments_ne_nil (Ne.symm hne) h.symm
  | cons key keys ih =>
      cases keys' with
      | nil => exact absurd h (segments_ne_nil (List.cons_ne_nil _ _))
      | cons key' keys' =>
          rw [List.flatMap_cons, List.flatMap_cons] at h
          cases key with
          | plus =>
              cases key' with
              | plus => rw [ih (List.append_cancel_left h)]
              | name key' => exact absurd (List.cons.inj h).1.symm key'.nonempty
          | name key =>
              cases key' with
              | plus => exact absurd (List.cons.inj h).1 key.nonempty
              | name key' =>
                  obtain ⟨hchars, hrest⟩ := List.cons.inj h
                  obtain ⟨chars, _, _⟩ := key
                  obtain ⟨chars', _, _⟩ := key'
                  cases hchars
                  rw [ih hrest]

/-- The derivation of a chord is unique. -/
theorem Chord.unique {s : List Char} {keys keys' : List ChordKey} (h : Chord s keys)
    (h' : Chord s keys') : keys = keys' := segments_inj (h.split.symm.trans h'.split)

/-! ## The parser -/

/-- The keysyms of keys, or the first key that is not known. -/
def keysymsOf : List ChordKey → Except UnknownKey (List UInt32)
  | [] => .ok []
  | key :: keys =>
      match key.keysym? with
      | some k => do
          let syms ← keysymsOf keys
          return k :: syms
      | none => .error ⟨String.ofList key.spelling⟩

/-- The loop finds the keys in their segments. -/
theorem parseSegments_segments (keys : List ChordKey) :
    parseSegments (keys.flatMap ChordKey.segments) = keysymsOf keys := by
  induction keys with
  | nil => rfl
  | cons key keys ih =>
      rw [List.flatMap_cons, keysymsOf, ← ih]
      cases key with
      | plus => rfl
      | name key =>
          obtain ⟨chars, hne, hplus⟩ := key
          cases chars with
          | nil => exact absurd rfl hne
          | cons c chars => rfl

/-- Segments that the loop accepts are those of keys. -/
theorem keys_of_parseSegments {segs : List (List Char)} {syms : List UInt32}
    (hplus : ∀ seg ∈ segs, '+' ∉ seg) (h : parseSegments segs = .ok syms) :
    ∃ keys : List ChordKey, segs = keys.flatMap ChordKey.segments := by
  fun_induction parseSegments segs generalizing syms with
  | case1 => exact ⟨[], rfl⟩
  | case2 rest ih =>
      cases hrest : parseSegments rest with
      | error e =>
          rw [hrest] at h
          cases h
      | ok syms' =>
          obtain ⟨keys, rfl⟩ := ih (fun seg hmem =>
            hplus seg (List.mem_cons_of_mem _ (List.mem_cons_of_mem _ hmem))) hrest
          exact ⟨.plus :: keys, rfl⟩
  | case3 rest _ => cases h
  | case4 seg rest _ hseg k hk ih =>
      cases hrest : parseSegments rest with
      | error e =>
          rw [hrest] at h
          cases h
      | ok syms' =>
          obtain ⟨keys, rfl⟩ := ih (fun seg hmem => hplus seg (List.mem_cons_of_mem _ hmem)) hrest
          have hne : seg ≠ [] := fun hnil => hseg hnil
          exact ⟨.name ⟨seg, hne, hplus seg List.mem_cons_self⟩ :: keys, rfl⟩
  | case5 seg rest _ _ _ => cases h

theorem keysymsOf_ok_iff {keys : List ChordKey} {syms : List UInt32} :
    keysymsOf keys = .ok syms ↔ keys.mapM ChordKey.keysym? = some syms := by
  induction keys generalizing syms with
  | nil => simp [keysymsOf]
  | cons key keys ih =>
      rw [keysymsOf, List.mapM_cons]
      cases key.keysym? with
      | none => simp
      | some k =>
          cases hkeys : keysymsOf keys with
          | error e =>
              have hnone : keys.mapM ChordKey.keysym? = none := by
                cases hmap : keys.mapM ChordKey.keysym? with
                | none => rfl
                | some syms' =>
                    rw [ih.mpr hmap] at hkeys
                    cases hkeys
              simp [hnone]
          | ok syms' => simp [ih.mp hkeys]

/-- The first key that is not known is the one the error names. -/
theorem keysymsOf_error {before after : List ChordKey} {key : ChordKey}
    (hbefore : ∀ k ∈ before, k.keysym?.isSome = true) (hkey : key.keysym? = none) :
    keysymsOf (before ++ key :: after) = .error ⟨String.ofList key.spelling⟩ := by
  induction before with
  | nil => rw [List.nil_append, keysymsOf, hkey]
  | cons k before ih =>
      obtain ⟨sym, hsym⟩ := Option.isSome_iff_exists.mp (hbefore k List.mem_cons_self)
      rw [List.cons_append, keysymsOf, hsym,
        ih (fun k hmem => hbefore k (List.mem_cons_of_mem _ hmem))]
      rfl

/-- A chord has a key. -/
theorem Chord.nonempty {s : List Char} {keys : List ChordKey} (h : Chord s keys) : keys ≠ [] := by
  cases h with
  | one key => exact List.cons_ne_nil _ _
  | more key _ => exact List.cons_ne_nil _ _

/-- Every key has its keysym. -/
theorem length_keysymsOf {keys : List ChordKey} {syms : List UInt32}
    (h : keysymsOf keys = .ok syms) : syms.length = keys.length := by
  induction keys generalizing syms with
  | nil =>
      cases h
      rfl
  | cons key keys ih =>
      rw [keysymsOf] at h
      cases hkey : key.keysym? with
      | none =>
          rw [hkey] at h
          cases h
      | some k =>
          rw [hkey] at h
          cases hkeys : keysymsOf keys with
          | error e =>
              rw [hkeys] at h
              cases h
          | ok syms' =>
              rw [hkeys] at h
              cases h
              rw [List.length_cons, List.length_cons, ih hkeys]

/-- A chord is parsed key by key. -/
theorem Chord.parse {spec : String} {keys : List ChordKey} (h : Chord spec.toList keys) :
    parseChord spec = keysymsOf keys := by
  rw [parseChord, h.split, parseSegments_segments]
  cases hkeys : keysymsOf keys with
  | error e => rfl
  | ok syms =>
      have hne : syms ≠ [] := by
        intro hnil
        have hlength := length_keysymsOf hkeys
        rw [hnil] at hlength
        exact h.nonempty (List.eq_nil_of_length_eq_zero hlength.symm)
      exact if_neg hne

/-- What is parsed is a chord. -/
theorem chord_of_parse {spec : String} {syms : List UInt32} (h : parseChord spec = .ok syms) :
    ∃ keys, Chord spec.toList keys := by
  have hsplit := List.splitOn_ne_nil '+' spec.toList
  unfold parseChord at h
  cases hsegs : parseSegments (spec.toList.splitOn '+') with
  | error e =>
      rw [hsegs] at h
      cases h
  | ok syms' =>
      obtain ⟨keys, hkeys⟩ := keys_of_parseSegments
        (fun seg hmem => not_mem_of_mem_splitOn hmem) hsegs
      refine ⟨keys, chord_of_split ?_ hkeys⟩
      rintro rfl
      exact hsplit hkeys

/-- **`parse_chord` accepts exactly its grammar**: what it accepts are the
chords whose keys are all known, each of which has one derivation; and a
chord with a key that is not known is refused by the name of the first. -/
theorem parseChord_grammar (spec : String) :
    (∀ syms, parseChord spec = .ok syms ↔
      ∃ keys, Chord spec.toList keys ∧ keys.mapM ChordKey.keysym? = some syms) ∧
    (∀ keys keys', Chord spec.toList keys → Chord spec.toList keys' → keys = keys') ∧
    ∀ before key after, Chord spec.toList (before ++ key :: after) →
      (∀ k ∈ before, k.keysym?.isSome = true) → key.keysym? = none →
      parseChord spec = .error ⟨String.ofList key.spelling⟩ := by
  refine ⟨fun syms => ⟨fun h => ?_, fun ⟨keys, hchord, hmap⟩ => ?_⟩,
    fun _ _ h h' => h.unique h', fun before key after hchord hbefore hkey => ?_⟩
  · obtain ⟨keys, hchord⟩ := chord_of_parse h
    exact ⟨keys, hchord, keysymsOf_ok_iff.mp (hchord.parse ▸ h)⟩
  · rw [hchord.parse]
    exact keysymsOf_ok_iff.mpr hmap
  · rw [hchord.parse]
    exact keysymsOf_error hbefore hkey

end Bolide.Rfb
