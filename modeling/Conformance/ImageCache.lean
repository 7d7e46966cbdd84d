import Mathlib.Logic.Function.Basic
import Conformance.Basic

/-!
# `RGBAImageCache`: a load-once cache under every interleaving

`RGBAImageCache::Load(path)` (lines 343–365) runs in three atomic pieces:

1. under the lock, `m_imageCache.find(path)`; on a hit the call returns the
   stored `shared_ptr`;
2. without the lock, `RGBAImage::Load(path)` decodes a fresh image or throws;
3. under the lock again, `m_imageCache.emplace(path, image).first->second`,
   which inserts only if `path` is still absent and returns whatever is stored.

Any number of calls may be in flight, and the lock only makes each piece
atomic.  The model is a transition system whose state holds the map and one
`Call` per `Load` ever started; an `Action` advances one call by one piece, so
a list of actions is an interleaving, and `run` replays it.  Decoding is the
one external step, so it is two actions: `decodeOk` allocates a new image
object (a `shared_ptr` is identified by its allocation), `decodeFail` throws.

The results, for every interleaving:

* `run_imageCache_mono`: a stored entry is never replaced or removed;
* `returned_agree`: all calls that returned for one path returned the same
  object, because every returned object is the stored one (`Consistent`);
* `lookup_after_return`: a lookup that runs after some call for the same path
  has returned hits, so that call never decodes;
* `step_imageCache_eq_or_insert`: only an `emplace` by a call holding a
  decoded image changes the map, so a call whose decode throws leaves it as it
  was.

## What is taken from outside `src/`

The header declaring `RGBAImageCache` is missing.  The key type of
`m_imageCache` is a parameter `Path` with decidable equality, and `IsValid()`
is modelled from the spec ("guarded by a mutex that must be explicitly
initialized before use") as "`Init` has created the mutex".
-/

namespace Conformance.ImageCache

/-- A `std::shared_ptr<RGBAImage>`, named by the allocation that created it. -/
abbrev ImageRef := Nat

variable {Path : Type} [DecidableEq Path]

/-- Where one `Load(path)` call is. -/
inductive Call (Path : Type) where
  /-- Started, about to search the map under the lock. -/
  | lookup (path : Path)
  /-- Missed, about to decode without the lock. -/
  | decode (path : Path)
  /-- Decoded `image`, about to `emplace` it under the lock. -/
  | insert (path : Path) (image : ImageRef)
  /-- Returned `image`. -/
  | returned (path : Path) (image : ImageRef)
  /-- Threw `fault`. -/
  | threw (path : Path) (fault : Fault)
deriving DecidableEq, Repr

/-- The cache object together with every `Load` call made on it. -/
structure State (Path : Type) where
  /-- Whether `m_cacheMutex` has been created by `Init()`. -/
  cacheMutex : Bool
  imageCache : Path → Option ImageRef
  calls : List (Call Path)
  /-- The next image object a decode allocates. -/
  nextImage : ImageRef

/-- A default-constructed cache with no calls yet. -/
def State.empty : State Path := ⟨false, fun _ ↦ none, [], 0⟩

/-- One atomic piece of some call, or `Init()`, or the start of a new call. -/
inductive Action (Path : Type) where
  | init
  | load (path : Path)
  | lookup (call : Nat)
  | decodeOk (call : Nat)
  | decodeFail (call : Nat) (fault : Fault)
  | insert (call : Nat)
deriving DecidableEq, Repr

/-- `IsValid()`.  Modelled from the spec: the header that declares it is not in
`src/`, and the spec says the cache "must be explicitly initialized before use". -/
def State.isValid (s : State Path) : Bool := s.cacheMutex

/-- Lines 350–356: on a hit the call returns the stored image, on a miss it goes
on to decode. -/
def lookupResult (cache : Path → Option ImageRef) (path : Path) : Call Path :=
  match cache path with
  | some image => .returned path image
  | none => .decode path

/-- `m_imageCache.emplace(path, image)`: inserts only if `path` is absent, and
returns the map together with the image now stored for `path`. -/
def emplace (cache : Path → Option ImageRef) (path : Path) (image : ImageRef) :
    (Path → Option ImageRef) × ImageRef :=
  match cache path with
  | some stored => (cache, stored)
  | none => (Function.update cache path (some image), image)

/-- The first piece of `Load(path)`: the `IsValid()` check of line 345. -/
def startLoad (s : State Path) (path : Path) : Call Path :=
  if s.isValid then .lookup path
  else .threw path (.logicError "RGBAImageCache accessed before initialization")

/-- One atomic step; `none` when the action names no call in the right place. -/
def step (s : State Path) : Action Path → Option (State Path)
  | .init => some { s with cacheMutex := true }
  | .load path => some { s with calls := s.calls ++ [startLoad s path] }
  | .lookup j => match s.calls[j]? with
    | some (.lookup path) => some { s with calls := s.calls.set j (lookupResult s.imageCache path) }
    | _ => none
  | .decodeOk j => match s.calls[j]? with
    | some (.decode path) =>
      some { s with calls := s.calls.set j (.insert path s.nextImage), nextImage := s.nextImage + 1 }
    | _ => none
  | .decodeFail j fault => match s.calls[j]? with
    | some (.decode path) => some { s with calls := s.calls.set j (.threw path fault) }
    | _ => none
  | .insert j => match s.calls[j]? with
    | some (.insert path image) =>
      some { s with
        imageCache := (emplace s.imageCache path image).1
        calls := s.calls.set j (.returned path (emplace s.imageCache path image).2) }
    | _ => none

/-- Replays an interleaving; `none` if some action was not enabled. -/
def run (s : State Path) : List (Action Path) → Option (State Path)
  | [] => some s
  | a :: acts => match step s a with
    | some s' => run s' acts
    | none => none

/-! ## What a step can do -/

/-- What one step does to the call it advances and to the map. -/
inductive Move : (Path → Option ImageRef) → Call Path → Call Path →
    (Path → Option ImageRef) → Prop
  | lookup (cache path) : Move cache (.lookup path) (lookupResult cache path) cache
  | decodeOk (cache path image) : Move cache (.decode path) (.insert path image) cache
  | decodeFail (cache path fault) : Move cache (.decode path) (.threw path fault) cache
  | insert (cache path image) :
    Move cache (.insert path image) (.returned path (emplace cache path image).2)
      (emplace cache path image).1

/-- Every step either leaves the calls and the map alone (`Init`), starts one
call at the end of the list, or moves one existing call as `Move` allows. -/
theorem step_cases {s s' : State Path} {a : Action Path} (h : step s a = some s') :
    (s'.imageCache = s.imageCache ∧ s'.calls = s.calls) ∨
    (s'.imageCache = s.imageCache ∧ ∃ path, s'.calls = s.calls ++ [startLoad s path]) ∨
    ∃ j c c', s.calls[j]? = some c ∧ s'.calls = s.calls.set j c' ∧
      Move s.imageCache c c' s'.imageCache := by
  cases a with
  | init => cases h; exact .inl ⟨rfl, rfl⟩
  | load path => cases h; exact .inr (.inl ⟨rfl, path, rfl⟩)
  | _ =>
    simp only [step] at h
    split at h <;> cases h
    exact .inr (.inr ⟨_, _, _, ‹_›, rfl, by constructor⟩)

theorem emplace_mono {cache : Path → Option ImageRef} {path p : Path} {image img : ImageRef}
    (h : cache p = some img) : (emplace cache path image).1 p = some img := by
  unfold emplace
  split
  · exact h
  · rename_i hnone
    have hne : p ≠ path := by rintro rfl; simp [h] at hnone
    simp only [Function.update_noteq hne, h]

theorem emplace_stored (cache : Path → Option ImageRef) (path : Path) (image : ImageRef) :
    (emplace cache path image).1 path = some (emplace cache path image).2 := by
  unfold emplace
  split
  · assumption
  · exact Function.update_same _ _ _

theorem Move.imageCache_mono {cache cache' : Path → Option ImageRef} {c c' : Call Path}
    {p : Path} {img : ImageRef} (hm : Move cache c c' cache') (h : cache p = some img) :
    cache' p = some img := by
  cases hm with
  | insert => exact emplace_mono h
  | _ => exact h

/-- A call that has returned or thrown takes no further step. -/
theorem Move.not_final {cache cache' : Path → Option ImageRef} {c c' : Call Path}
    (hm : Move cache c c' cache') : (∀ p img, c ≠ .returned p img) ∧ ∀ p e, c ≠ .threw p e := by
  cases hm <;> simp

/-- A move that ends in `returned` returns the image the new map stores. -/
theorem Move.returned_stored {cache cache' : Path → Option ImageRef} {c : Call Path}
    {p : Path} {img : ImageRef} (hm : Move cache c (.returned p img) cache') :
    cache' p = some img := by
  generalize hc' : Call.returned p img = c' at hm
  cases hm with
  | lookup path =>
    unfold lookupResult at hc'
    split at hc' <;> simp_all
  | insert path image =>
    cases hc'
    exact emplace_stored _ _ _
  | _ => cases hc'

/-! ## Runs -/

theorem run_cons {s s'' : State Path} {a : Action Path} {acts : List (Action Path)} :
    run s (a :: acts) = some s'' ↔ ∃ s', step s a = some s' ∧ run s' acts = some s'' := by
  simp only [run]
  split <;> simp_all

/-- A reflexive, transitive relation that every step respects holds along every run. -/
theorem run_rel {R : State Path → State Path → Prop} (hrefl : ∀ s, R s s)
    (htrans : ∀ s₁ s₂ s₃, R s₁ s₂ → R s₂ s₃ → R s₁ s₃)
    (hstep : ∀ s a s', step s a = some s' → R s s') :
    ∀ {s s' : State Path} (acts : List (Action Path)), run s acts = some s' → R s s'
  | _, _, [], h => by cases h; exact hrefl _
  | _, _, _ :: acts, h => by
    obtain ⟨s₁, h₁, h₂⟩ := run_cons.mp h
    exact htrans _ _ _ (hstep _ _ _ h₁) (run_rel hrefl htrans hstep acts h₂)

theorem step_imageCache_mono {s s' : State Path} {a : Action Path} {p : Path} {img : ImageRef}
    (h : step s a = some s') (hp : s.imageCache p = some img) : s'.imageCache p = some img := by
  rcases step_cases h with ⟨hc, -⟩ | ⟨hc, -⟩ | ⟨_, _, _, -, -, hm⟩
  · rwa [hc]
  · rwa [hc]
  · exact hm.imageCache_mono hp

/-- Once an entry is stored for a path it is never replaced or removed. -/
theorem run_imageCache_mono {s s' : State Path} {acts : List (Action Path)}
    (h : run s acts = some s') {p : Path} {img : ImageRef} (hp : s.imageCache p = some img) :
    s'.imageCache p = some img :=
  run_rel (R := fun s s' ↦ s.imageCache p = some img → s'.imageCache p = some img)
    (fun _ h ↦ h) (fun _ _ _ h₁ h₂ h ↦ h₂ (h₁ h))
    (fun _ _ _ hs ↦ step_imageCache_mono hs) acts h hp

/-- A step leaves the record of a call that has finished as it was. -/
theorem step_final_persists {s s' : State Path} {a : Action Path} {k : Nat} {c : Call Path}
    (h : step s a = some s') (hk : s.calls[k]? = some c)
    (hfin : (∃ p img, c = .returned p img) ∨ ∃ p e, c = .threw p e) : s'.calls[k]? = some c := by
  have hlt : k < s.calls.length := (List.getElem?_eq_some_iff.mp hk).1
  rcases step_cases h with ⟨-, hc⟩ | ⟨-, _, hc⟩ | ⟨j, c₀, c', hj, hc, hm⟩
  · rwa [hc]
  · rwa [hc, List.getElem?_append_left hlt]
  · have hne : j ≠ k := by
      rintro rfl
      obtain ⟨hr, ht⟩ := hm.not_final
      rw [hk, Option.some.injEq] at hj
      rcases hfin with ⟨p, img, rfl⟩ | ⟨p, e, rfl⟩
      · exact hr p img hj.symm
      · exact ht p e hj.symm
    rwa [hc, List.getElem?_set_ne hne]

theorem run_final_persists {s s' : State Path} {acts : List (Action Path)}
    (h : run s acts = some s') {k : Nat} {c : Call Path} (hk : s.calls[k]? = some c)
    (hfin : (∃ p img, c = .returned p img) ∨ ∃ p e, c = .threw p e) : s'.calls[k]? = some c :=
  run_rel (R := fun s s' ↦ s.calls[k]? = some c → s'.calls[k]? = some c) (fun _ h ↦ h)
    (fun _ _ _ h₁ h₂ h ↦ h₂ (h₁ h)) (fun _ _ _ hs hk ↦ step_final_persists hs hk hfin) acts h hk

/-! ## Agreement -/

/-- Every call that has returned returned the image the map stores for its path. -/
def Consistent (s : State Path) : Prop :=
  ∀ (j : Nat) (p : Path) (img : ImageRef),
    s.calls[j]? = some (.returned p img) → s.imageCache p = some img

omit [DecidableEq Path] in
theorem Consistent.stored {s : State Path} (hs : Consistent s) {j : Nat} {p : Path}
    {img : ImageRef} (h : s.calls[j]? = some (.returned p img)) : s.imageCache p = some img :=
  hs j p img h

theorem Consistent.step {s s' : State Path} {a : Action Path} (hs : Consistent s)
    (h : step s a = some s') : Consistent s' := by
  intro k p img hk
  rcases step_cases h with ⟨hmap, hc⟩ | ⟨hmap, path, hc⟩ | ⟨j, c, c', hj, hc, hm⟩
  · rw [hmap]; exact hs.stored (by rwa [hc] at hk)
  · rw [hmap]
    rw [hc, List.getElem?_append] at hk
    split at hk
    · exact hs.stored hk
    · have : k - s.calls.length = 0 := by
        have := (List.getElem?_eq_some_iff.mp hk).1
        simp only [List.length_singleton] at this
        omega
      simp only [this, List.getElem?_cons_zero, Option.some.injEq, startLoad] at hk
      split at hk <;> cases hk
  · rw [hc, List.getElem?_set] at hk
    split at hk
    · rename_i hjk
      subst hjk
      rw [if_pos (List.getElem?_eq_some_iff.mp hj).1, Option.some.injEq] at hk
      subst hk
      exact hm.returned_stored
    · exact hm.imageCache_mono (hs.stored hk)

omit [DecidableEq Path] in
theorem consistent_empty : Consistent (State.empty : State Path) := by
  intro j p img h
  simp [State.empty] at h

theorem run_consistent {acts : List (Action Path)} {s : State Path}
    (h : run State.empty acts = some s) : Consistent s :=
  run_rel (R := fun s s' ↦ Consistent s → Consistent s') (fun _ h ↦ h)
    (fun _ _ _ h₁ h₂ h ↦ h₂ (h₁ h)) (fun _ _ _ hs hc ↦ Consistent.step hc hs) acts h
    consistent_empty

/-- All calls that have returned for one path returned the same image object. -/
theorem returned_agree {acts : List (Action Path)} {s : State Path}
    (h : run State.empty acts = some s) {j k : Nat} {p : Path} {a b : ImageRef}
    (hj : s.calls[j]? = some (.returned p a)) (hk : s.calls[k]? = some (.returned p b)) : a = b := by
  have hc := run_consistent h
  simpa [hc.stored hj] using hc.stored hk

/-- A lookup that runs after some call for the same path has returned hits: it
returns that call's image and never reaches the decode. -/
theorem lookup_after_return {acts : List (Action Path)} {s s' : State Path}
    (h : run State.empty acts = some s) {j k : Nat} {p : Path} {img : ImageRef}
    (hk : s.calls[k]? = some (.returned p img)) (hj : s.calls[j]? = some (.lookup p))
    (hstep : step s (.lookup j) = some s') : s'.calls[j]? = some (.returned p img) := by
  simp only [step, hj, Option.some.injEq] at hstep
  subst hstep
  rw [List.getElem?_set_self (List.getElem?_eq_some_iff.mp hj).1]
  simp [lookupResult, (run_consistent h).stored hk]

/-- Only an `emplace` by a call holding a decoded image changes the map. -/
theorem step_imageCache_eq_or_insert {s s' : State Path} {a : Action Path}
    (h : step s a = some s') :
    s'.imageCache = s.imageCache ∨ ∃ j p img, a = .insert j ∧ s.calls[j]? = some (.insert p img) := by
  cases a with
  | insert j =>
    simp only [step] at h
    split at h <;> cases h
    exact .inr ⟨j, _, _, rfl, ‹_›⟩
  | init | load => cases h; exact .inl rfl
  | lookup j | decodeOk j | decodeFail j _ =>
    simp only [step] at h
    split at h <;> cases h
    exact .inl rfl

/-- The contract of `RGBAImageCache::Load` over every interleaving of any number
of calls: (i) a stored entry is never replaced or removed, a call's return is
final, and all calls that returned for one path returned the same object;
(ii) a lookup that runs after a call for its path has returned hits, so it
never decodes; (iii) a throwing decode leaves the map as it was, a thrown call
stays thrown, and the map changes only when a call holding a decoded image
inserts it. -/
theorem load_interleaving_contract :
    ((∀ (s s' : State Path) acts (p : Path) (img : ImageRef), run s acts = some s' →
        s.imageCache p = some img → s'.imageCache p = some img) ∧
      (∀ (s s' : State Path) acts (k : Nat) (p : Path) (img : ImageRef), run s acts = some s' →
        s.calls[k]? = some (.returned p img) → s'.calls[k]? = some (.returned p img)) ∧
      ∀ acts (s : State Path) (j k : Nat) (p : Path) (a b : ImageRef),
        run State.empty acts = some s →
        s.calls[j]? = some (.returned p a) → s.calls[k]? = some (.returned p b) → a = b) ∧
    (∀ acts (s s' : State Path) (j k : Nat) (p : Path) (img : ImageRef),
        run State.empty acts = some s →
        s.calls[k]? = some (.returned p img) → s.calls[j]? = some (.lookup p) →
        step s (.lookup j) = some s' → s'.calls[j]? = some (.returned p img)) ∧
    ((∀ (s s' : State Path) (j : Nat) (e : Fault), step s (.decodeFail j e) = some s' →
        s'.imageCache = s.imageCache) ∧
      (∀ (s s' : State Path) acts (k : Nat) (p : Path) (e : Fault), run s acts = some s' →
        s.calls[k]? = some (.threw p e) → s'.calls[k]? = some (.threw p e)) ∧
      ∀ (s s' : State Path) a, step s a = some s' → s'.imageCache = s.imageCache ∨
        ∃ (j : Nat) (p : Path) (img : ImageRef), a = .insert j ∧
          s.calls[j]? = some (.insert p img)) :=
  ⟨⟨fun _ _ _ _ _ h hp ↦ run_imageCache_mono h hp,
      fun _ _ _ _ _ _ h hk ↦ run_final_persists h hk (.inl ⟨_, _, rfl⟩),
      fun _ _ _ _ _ _ _ h hj hk ↦ returned_agree h hj hk⟩,
    fun _ _ _ _ _ _ _ h hk hj hs ↦ lookup_after_return h hk hj hs,
    ⟨fun _ _ _ _ h ↦ (step_imageCache_eq_or_insert h).resolve_right (by simp),
      fun _ _ _ _ _ _ h hk ↦ run_final_persists h hk (.inr ⟨_, _, rfl⟩),
      fun _ _ _ h ↦ step_imageCache_eq_or_insert h⟩⟩

/-- A load of path `7` that runs to its return, then a second load of `7` that has
not yet looked up. -/
def lateActs : List (Action Nat) := [.init, .load 7, .lookup 0, .decodeOk 0, .insert 0, .load 7]

/-- The cache after `lateActs`: image `0` is stored and returned, and call `1` is
about to look up. -/
def lateState : State Nat :=
  ⟨true, Function.update (fun _ ↦ none) 7 (some 0), [.returned 7 0, .lookup 7], 1⟩

/-- The cache after call `1` has looked up. -/
def lateHitState : State Nat :=
  ⟨true, Function.update (fun _ ↦ none) 7 (some 0), [.returned 7 0, .returned 7 0], 1⟩

/-- The lookup of the second load, after the first returned, returns the first's
image without decoding. -/
theorem load_interleaving_contract_late_lookup :
    run State.empty lateActs = some lateState ∧ lateState.calls[0]? = some (.returned 7 0) ∧
      lateState.calls[1]? = some (.lookup 7) ∧ step lateState (.lookup 1) = some lateHitState ∧
      lateHitState.calls[1]? = some (.returned 7 0) :=
  have hrun : run State.empty lateActs = some lateState := rfl
  have hk : lateState.calls[0]? = some (.returned 7 0) := rfl
  have hj : lateState.calls[1]? = some (.lookup 7) := rfl
  have hs : step lateState (.lookup 1) = some lateHitState := rfl
  ⟨hrun, hk, hj, hs, load_interleaving_contract.2.1 lateActs lateState lateHitState 1 0 7 0 hrun hk hj hs⟩

/-- Two calls for one path both miss, both decode, and insert in the opposite
order: the second insert is discarded and both return the first one's image. -/
example : ((run (State.empty : State Nat) [.init, .load 7, .load 7, .lookup 0, .lookup 1,
    .decodeOk 0, .decodeOk 1, .insert 1, .insert 0]).map (·.calls)) =
    some [.returned 7 1, .returned 7 1] := by
  decide

end Conformance.ImageCache
