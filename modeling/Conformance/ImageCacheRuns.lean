import Conformance.ImageCache

/-!
# `RGBAImageCache` over whole runs: image identity

Two invariants carried through `run` from the empty cache, about which image
objects the calls and the map hold.

* **No image is shared between paths.**  A decode allocates an image object no
  one else holds (`Fresh`), and `emplace` stores a call's image under its own
  path only, so the map never holds one object under two paths, and no object
  is returned for two different paths (`returned_path_unique`).
* **The map is what was handed out.**  An entry is created only by the
  `emplace` whose call returns it (`Handed`), so the map holds exactly the
  images calls have returned (`cache_is_returned`).
-/

namespace Conformance.ImageCache

variable {Path : Type} [DecidableEq Path]

/-- An entry of the calls after `Load` has started one more. -/
theorem getElem?_append_singleton {α : Type} {l : List α} {x c : α} {j : Nat}
    (h : (l ++ [x])[j]? = some c) : l[j]? = some c ∨ (j = l.length ∧ c = x) := by
  rw [List.getElem?_append] at h
  split at h
  · exact .inl h
  · have hj : j - l.length < 1 := by simpa using (List.getElem?_eq_some_iff.mp h).1
    rw [show j - l.length = 0 by omega, List.getElem?_cons_zero, Option.some.injEq] at h
    exact .inr ⟨by omega, h.symm⟩

/-! ## Image identity -/

/-- Two loads of one path, both missing and decoding, stopped after the second has
inserted and returned while the first still holds its decoded image. -/
def raceActs : List (Action Nat) :=
  [.init, .load 7, .load 7, .lookup 0, .lookup 1, .decodeOk 0, .decodeOk 1, .insert 1]

/-- The cache after `raceActs`. -/
def raceState : State Nat :=
  ⟨true, Function.update (fun _ ↦ none) 7 (some 1), [.insert 7 0, .returned 7 1], 2⟩

/-- Every image object is held by at most one party: the map holds allocated
objects under one path each, and a call about to insert holds an allocated
object that neither the map nor any other call holds. -/
def Fresh (s : State Path) : Prop :=
  (∀ p i, s.imageCache p = some i → i < s.nextImage) ∧
  (∀ p q i, s.imageCache p = some i → s.imageCache q = some i → p = q) ∧
  ∀ (k : Nat) (q : Path) (i : ImageRef), s.calls[k]? = some (.insert q i) →
    i < s.nextImage ∧ (∀ p, s.imageCache p ≠ some i) ∧
      ∀ (k' : Nat) (q' : Path), s.calls[k']? = some (.insert q' i) → k' = k

omit [DecidableEq Path] in
theorem fresh_empty : Fresh (State.empty : State Path) := by
  refine ⟨fun _ _ h ↦ ?_, fun _ _ _ h ↦ ?_, fun _ _ _ h ↦ ?_⟩ <;> simp [State.empty] at h

omit [DecidableEq Path] in
/-- An entry of the calls after one call has moved. -/
theorem getElem?_set_eq_some {α : Type} {l : List α} {k k' : Nat} {c d : α}
    (h : (l.set k c)[k']? = some d) : (k = k' ∧ c = d) ∨ (k ≠ k' ∧ l[k']? = some d) := by
  by_cases hkk : k = k'
  · subst hkk
    have hlt : k < l.length := by simpa using (List.getElem?_eq_some_iff.mp h).1
    rw [List.getElem?_set_self hlt, Option.some.injEq] at h
    exact .inl ⟨rfl, h⟩
  · rw [List.getElem?_set_ne hkk] at h
    exact .inr ⟨hkk, h⟩

omit [DecidableEq Path] in
/-- Moving a call to a state other than `insert` creates no holder of an image. -/
theorem insert_of_set {calls : List (Call Path)} {k k' : Nat} {c : Call Path} {q : Path}
    {i : ImageRef} (hc : ∀ q i, c ≠ .insert q i) (h : (calls.set k c)[k']? = some (.insert q i)) :
    calls[k']? = some (.insert q i) := by
  rcases getElem?_set_eq_some h with ⟨-, rfl⟩ | ⟨-, h⟩
  · exact absurd rfl (hc q i)
  · exact h

omit [DecidableEq Path] in
/-- A step that keeps the map and the allocator, and after which every call about
to insert was already about to insert the same image, keeps `Fresh`. -/
theorem Fresh.of_calls {s s' : State Path} (hs : Fresh s) (hmap : s'.imageCache = s.imageCache)
    (hnext : s'.nextImage = s.nextImage)
    (hcalls : ∀ (k : Nat) (q : Path) (i : ImageRef),
      s'.calls[k]? = some (.insert q i) → s.calls[k]? = some (.insert q i)) : Fresh s' := by
  obtain ⟨hlt, hinj, hins⟩ := hs
  unfold Fresh
  rw [hmap, hnext]
  refine ⟨hlt, hinj, fun k q i hk ↦ ?_⟩
  obtain ⟨h₁, h₂, h₃⟩ := hins k q i (hcalls k q i hk)
  exact ⟨h₁, h₂, fun k' q' hk' ↦ h₃ k' q' (hcalls k' q' i hk')⟩

/-- Every step keeps `Fresh`: a decode allocates a new object, and `emplace`
stores the inserting call's object only under its own path. -/
theorem Fresh.step {s s' : State Path} {a : Action Path} (hs : Fresh s)
    (h : ImageCache.step s a = some s') : Fresh s' := by
  cases a with
  | init => cases h; exact hs
  | load path =>
    cases h
    refine hs.of_calls rfl rfl fun k q i hk ↦ ?_
    rcases getElem?_append_singleton hk with hk | ⟨-, hx⟩
    · exact hk
    · unfold startLoad at hx
      split at hx <;> cases hx
  | lookup j =>
    simp only [ImageCache.step] at h
    split at h <;> cases h
    rename_i path _
    refine hs.of_calls rfl rfl fun k q i hk ↦ insert_of_set (fun q i ↦ ?_) hk
    unfold lookupResult
    split <;> simp
  | decodeFail j e =>
    simp only [ImageCache.step] at h
    split at h <;> cases h
    exact hs.of_calls rfl rfl fun k q i hk ↦ insert_of_set (fun _ _ ↦ Call.noConfusion) hk
  | decodeOk j =>
    obtain ⟨hlt, hinj, hins⟩ := hs
    simp only [ImageCache.step] at h
    split at h <;> cases h
    rename_i path hj
    refine ⟨fun p i hp ↦ Nat.lt_succ_of_lt (hlt p i hp), hinj, fun k q i hk ↦ ?_⟩
    rcases getElem?_set_eq_some hk with ⟨rfl, hci⟩ | ⟨-, hk⟩
    · -- the call that just decoded holds the new object, and no one else does
      obtain ⟨rfl, rfl⟩ := Call.insert.inj hci
      refine ⟨Nat.lt_succ_self _, fun p hp ↦ Nat.lt_irrefl _ (hlt p _ hp), fun k' q' hk' ↦ ?_⟩
      rcases getElem?_set_eq_some hk' with ⟨rfl, -⟩ | ⟨-, hk'⟩
      · rfl
      · exact absurd (hins k' q' _ hk').1 (Nat.lt_irrefl _)
    · refine ⟨Nat.lt_succ_of_lt (hins k q i hk).1, (hins k q i hk).2.1, fun k' q' hk' ↦ ?_⟩
      rcases getElem?_set_eq_some hk' with ⟨rfl, hci⟩ | ⟨-, hk'⟩
      · obtain ⟨-, rfl⟩ := Call.insert.inj hci
        exact absurd (hins k q _ hk).1 (Nat.lt_irrefl _)
      · exact (hins k q i hk).2.2 k' q' hk'
  | insert j =>
    obtain ⟨hlt, hinj, hins⟩ := hs
    simp only [ImageCache.step] at h
    split at h <;> cases h
    rename_i q₀ i₀ hj
    obtain ⟨hi₀, hfree, huniq⟩ := hins j q₀ i₀ hj
    have hc : ∀ q i, Call.returned q₀ (emplace s.imageCache q₀ i₀).2 ≠ .insert q i := by simp
    have hmap : ∀ p i, (emplace s.imageCache q₀ i₀).1 p = some i →
        s.imageCache p = some i ∨ (p = q₀ ∧ i = i₀) := by
      intro p i hp
      unfold emplace at hp
      split at hp
      · exact .inl hp
      · dsimp only at hp
        by_cases hpq : p = q₀
        · subst hpq
          rw [Function.update_same, Option.some.injEq] at hp
          exact .inr ⟨rfl, hp.symm⟩
        · rw [Function.update_noteq hpq] at hp
          exact .inl hp
    refine ⟨fun p i hp ↦ ?_, fun p q i hp hq ↦ ?_, fun k q i hk ↦ ?_⟩
    · rcases hmap p i hp with hp | ⟨-, rfl⟩
      · exact hlt p i hp
      · exact hi₀
    · rcases hmap p i hp with hp' | ⟨rfl, rfl⟩
      · rcases hmap q i hq with hq' | ⟨rfl, rfl⟩
        · exact hinj p q i hp' hq'
        · exact absurd hp' (hfree p)
      · rcases hmap q i hq with hq' | ⟨rfl, -⟩
        · exact absurd hq' (hfree q)
        · rfl
    · have hk' := insert_of_set hc hk
      have hkj : k ≠ j := by
        rintro rfl
        rcases getElem?_set_eq_some hk with ⟨-, h⟩ | ⟨h, -⟩
        · exact hc q i h
        · exact h rfl
      have hii₀ : i ≠ i₀ := fun hii ↦ hkj (huniq k q (hii ▸ hk'))
      refine ⟨(hins k q i hk').1, fun p hp ↦ ?_,
        fun k' q' hk'' ↦ (hins k q i hk').2.2 k' q' (insert_of_set hc hk'')⟩
      rcases hmap p i hp with hp | ⟨-, rfl⟩
      · exact (hins k q i hk').2.1 p hp
      · exact hii₀ rfl

theorem run_fresh {acts : List (Action Path)} {s : State Path}
    (h : run State.empty acts = some s) : Fresh s :=
  run_rel (R := fun s s' ↦ Fresh s → Fresh s') (fun _ h ↦ h)
    (fun _ _ _ h₁ h₂ h ↦ h₂ (h₁ h)) (fun _ _ _ hs hf ↦ hf.step hs) acts h fresh_empty

/-- No image object is ever handed out for two different paths: in every
interleaving from the empty cache, two calls that returned the same object were
loading the same path, and the map never stores one object under two paths. -/
theorem returned_path_unique {acts : List (Action Path)} {s : State Path}
    (h : run State.empty acts = some s) :
    (∀ p q i, s.imageCache p = some i → s.imageCache q = some i → p = q) ∧
      ∀ (j k : Nat) (p q : Path) (i : ImageRef), s.calls[j]? = some (.returned p i) →
        s.calls[k]? = some (.returned q i) → p = q := by
  have hinj := (run_fresh h).2.1
  have hc := run_consistent h
  exact ⟨hinj, fun _ _ p q i hj hk ↦ hinj p q i (hc.stored hj) (hc.stored hk)⟩

/-- The race of `raceActs` meets the hypothesis of `returned_path_unique`. -/
theorem returned_path_unique_race :
    run State.empty raceActs = some raceState ∧
      (∀ p q i, raceState.imageCache p = some i → raceState.imageCache q = some i → p = q) ∧
      ∀ (j k : Nat) (p q : Nat) (i : ImageRef), raceState.calls[j]? = some (.returned p i) →
        raceState.calls[k]? = some (.returned q i) → p = q :=
  have hrun : run State.empty raceActs = some raceState := rfl
  ⟨hrun, returned_path_unique hrun⟩

/-! ## The map is what was handed out -/

/-- Every entry of the map has been returned by some call. -/
def Handed (s : State Path) : Prop :=
  ∀ (p : Path) (i : ImageRef), s.imageCache p = some i → ∃ j : Nat, s.calls[j]? = some (.returned p i)

/-- A move that creates an entry is the `emplace` that returns it. -/
theorem Move.new_entry {cache cache' : Path → Option ImageRef} {c c' : Call Path} {p : Path}
    {i : ImageRef} (hm : Move cache c c' cache') (hp : cache' p = some i) (hold : cache p ≠ some i) :
    c' = .returned p i := by
  cases hm with
  | insert path image =>
    unfold emplace at hp ⊢
    split at hp
    · exact absurd hp hold
    · dsimp only at hp ⊢
      by_cases hpath : p = path
      · subst hpath
        rw [Function.update_same, Option.some.injEq] at hp
        rw [hp]
      · rw [Function.update_noteq hpath] at hp
        exact absurd hp hold
  | _ => exact absurd hp hold

/-- Every step keeps `Handed`: old entries stay returned, and a new entry is
returned by the call that stored it. -/
theorem Handed.step {s s' : State Path} {a : Action Path} (hs : Handed s)
    (h : ImageCache.step s a = some s') : Handed s' := by
  intro p i hp
  by_cases hold : s.imageCache p = some i
  · obtain ⟨j, hj⟩ := hs p i hold
    exact ⟨j, step_final_persists h hj (.inl ⟨p, i, rfl⟩)⟩
  rcases step_cases h with ⟨hmap, -⟩ | ⟨hmap, -⟩ | ⟨j, c, c', hj, hc, hm⟩
  · exact absurd (hmap ▸ hp) hold
  · exact absurd (hmap ▸ hp) hold
  · refine ⟨j, ?_⟩
    rw [hc, List.getElem?_set_self (List.getElem?_eq_some_iff.mp hj).1, hm.new_entry hp hold]

/-- In every interleaving from the empty cache, the map holds exactly the images
that calls have returned: an entry is stored only by the `emplace` that returns
it, and every returned image is the one stored for its path. -/
theorem cache_is_returned {acts : List (Action Path)} {s : State Path}
    (h : run State.empty acts = some s) (p : Path) (i : ImageRef) :
    s.imageCache p = some i ↔ ∃ j : Nat, s.calls[j]? = some (.returned p i) := by
  have hhanded : Handed s :=
    run_rel (R := fun s s' ↦ Handed s → Handed s') (fun _ h ↦ h)
      (fun _ _ _ h₁ h₂ h ↦ h₂ (h₁ h)) (fun _ _ _ hs hh ↦ hh.step hs) acts h
      (fun _ _ hp ↦ by simp [State.empty] at hp)
  exact ⟨hhanded p i, fun ⟨j, hj⟩ ↦ (run_consistent h).stored hj⟩

/-- The race of two loads of path `7`: the map holds image `1`, which call `1`
returned. -/
theorem cache_is_returned_race :
    run State.empty raceActs = some raceState ∧
      (raceState.imageCache 7 = some 1 ↔ ∃ j : Nat, raceState.calls[j]? = some (.returned 7 1)) :=
  have hrun : run State.empty raceActs = some raceState := rfl
  ⟨hrun, cache_is_returned hrun 7 1⟩

end Conformance.ImageCache
