import Mathlib.Data.List.Nodup
import ProbeWeaver.Query.Cache

/-!
# Proofs/Query/Caching — looked up is as good as compiled

A lookup finds its text, or compiles it and keeps what compiles, once a full cache has been emptied
(`lookup_cases`).  What is kept is always what compiling gives (`Sound`), so no sequence of lookups
and clears tells the cache from the compiler, wherever in it the cache fills up.

* `Sound.serve` — one request: its answer, and what it leaves.
* `serves_as_compiling` — any number of them, from the empty cache on.
-/

namespace ProbeWeaver.QueryCache

variable {α ε : Type} {compile : String → Except ε α} {cache : QueryCache α} {text : String}
  {value : α} {fault : ε}

/-! ## One lookup -/

/-- A text that is there is found, whatever the compiler. -/
theorem lookup_of_found (h : cache.entries.lookup text = some value)
    (compile : String → Except ε α) : cache.lookup compile text = (.ok value, cache) := by
  rw [lookup, h]

/-- **What a lookup can do**: find the text, compile and keep it, or fail to compile it. -/
theorem lookup_cases (compile : String → Except ε α) (cache : QueryCache α) (text : String) :
    (∃ value, cache.entries.lookup text = some value ∧
        cache.lookup compile text = (.ok value, cache)) ∨
      text ∉ cache.entries.map Prod.fst ∧
        ((∃ value, compile text = .ok value ∧ cache.lookup compile text =
            (.ok value, ⟨(text, value) :: cache.withRoom.entries⟩)) ∨
          ∃ fault, compile text = .error fault ∧
            cache.lookup compile text = (.error fault, cache.withRoom)) := by
  cases hfound : cache.entries.lookup text with
  | some value => exact .inl ⟨value, rfl, lookup_of_found hfound compile⟩
  | none =>
    refine .inr ⟨fun hmem => ?_, ?_⟩
    · obtain ⟨entry, hentry, rfl⟩ := List.mem_map.mp hmem
      have hne := List.lookup_eq_none_iff.mp hfound entry hentry
      exact absurd rfl (bne_iff_ne.mp hne)
    · cases hcompile : compile text with
      | ok value => exact .inl ⟨value, rfl, by rw [lookup, hfound, hcompile]⟩
      | error fault => exact .inr ⟨fault, rfl, by rw [lookup, hfound, hcompile]⟩

/-- Making room leaves some of the entries. -/
theorem entries_withRoom_sublist (cache : QueryCache α) :
    cache.withRoom.entries.Sublist cache.entries := by
  rw [withRoom]
  split
  · exact List.nil_sublist _
  · exact List.Sublist.refl _

/-- **There is room for one more entry.** -/
theorem size_withRoom_lt (cache : QueryCache α) : cache.withRoom.size < capacity := by
  rw [withRoom]
  split
  · exact Nat.zero_lt_succ _
  · next hroom => exact Nat.lt_of_not_le hroom

/-- **A lookup that fails adds no entry.** -/
theorem subset_of_lookup_eq_error (h : (cache.lookup compile text).1 = .error fault) :
    (cache.lookup compile text).2.entries ⊆ cache.entries := by
  rcases lookup_cases compile cache text with
    ⟨value, -, heq⟩ | ⟨-, ⟨value, -, heq⟩ | ⟨fault, -, heq⟩⟩
  · rw [heq] at h
    contradiction
  · rw [heq] at h
    contradiction
  · rw [heq]
    exact (entries_withRoom_sublist cache).subset

/-- **What a lookup gave is kept**: the next lookup of the text finds it and compiles nothing. -/
theorem lookup_lookup (h : (cache.lookup compile text).1 = .ok value)
    (other : String → Except ε α) :
    (cache.lookup compile text).2.lookup other text =
      (.ok value, (cache.lookup compile text).2) := by
  refine lookup_of_found ?_ other
  rcases lookup_cases compile cache text with
    ⟨found, hfound, heq⟩ | ⟨-, ⟨found, -, heq⟩ | ⟨fault, -, heq⟩⟩
  · rw [heq] at h ⊢
    rw [← Except.ok.inj h, hfound]
  · rw [heq] at h ⊢
    rw [← Except.ok.inj h]
    exact List.lookup_cons_self
  · rw [heq] at h
    contradiction

/-! ## What is kept -/

/-- **A cache of what compiles**: no more entries than there is room for, no text twice, and every
text with what compiling it gives. -/
structure Sound (compile : String → Except ε α) (cache : QueryCache α) : Prop where
  size_le : cache.size ≤ capacity
  nodup : (cache.entries.map Prod.fst).Nodup
  compiled : ∀ entry ∈ cache.entries, compile entry.1 = .ok entry.2

theorem sound_empty (compile : String → Except ε α) : Sound compile empty :=
  ⟨Nat.zero_le _, List.nodup_nil, fun _ h => absurd h List.not_mem_nil⟩

/-- Making room keeps the cache sound. -/
theorem Sound.withRoom (h : cache.Sound compile) : cache.withRoom.Sound compile where
  size_le := Nat.le_of_lt (size_withRoom_lt cache)
  nodup := h.nodup.sublist ((entries_withRoom_sublist cache).map _)
  compiled entry hentry := h.compiled entry ((entries_withRoom_sublist cache).subset hentry)

/-- **A lookup answers as compiling does.** -/
theorem Sound.fst_lookup (h : cache.Sound compile) (text : String) :
    (cache.lookup compile text).1 = compile text := by
  rcases lookup_cases compile cache text with
    ⟨value, hfound, heq⟩ | ⟨-, ⟨value, hcompile, heq⟩ | ⟨fault, hcompile, heq⟩⟩
  · obtain ⟨front, back, hentries, -⟩ := List.lookup_eq_some_iff.mp hfound
    have hmem : (text, value) ∈ cache.entries :=
      hentries ▸ List.mem_append_right front List.mem_cons_self
    rw [heq, h.compiled _ hmem]
  · rw [heq, hcompile]
  · rw [heq, hcompile]

/-- **A lookup leaves a sound cache.** -/
theorem Sound.snd_lookup (h : cache.Sound compile) (text : String) :
    (cache.lookup compile text).2.Sound compile := by
  rcases lookup_cases compile cache text with
    ⟨value, -, heq⟩ | ⟨hmissing, ⟨value, hcompile, heq⟩ | ⟨fault, -, heq⟩⟩
  · rw [heq]
    exact h
  · rw [heq]
    have hnew : text ∉ cache.withRoom.entries.map Prod.fst := fun hmem =>
      hmissing (((entries_withRoom_sublist cache).map _).subset hmem)
    exact ⟨size_withRoom_lt cache, List.nodup_cons.mpr ⟨hnew, h.withRoom.nodup⟩,
      List.forall_mem_cons.mpr ⟨hcompile, h.withRoom.compiled⟩⟩
  · rw [heq]
    exact h.withRoom

/-! ## Requests in a row -/

/-- What a user can ask of the cache. -/
inductive Request where
  | lookup (text : String)
  | clear

/-- **One request**: the answer, which only a lookup has, and the cache after it. -/
def serve (compile : String → Except ε α) (cache : QueryCache α) :
    Request → Option (Except ε α) × QueryCache α
  | .lookup text => (some (cache.lookup compile text).1, (cache.lookup compile text).2)
  | .clear => (none, empty)

/-- The answers to requests. -/
def answers (compile : String → Except ε α) : QueryCache α → List Request →
    List (Option (Except ε α))
  | _, [] => []
  | cache, request :: requests =>
    (cache.serve compile request).1 :: answers compile (cache.serve compile request).2 requests

/-- The cache after requests. -/
def after (compile : String → Except ε α) (cache : QueryCache α) (requests : List Request) :
    QueryCache α :=
  requests.foldl (fun cache request => (cache.serve compile request).2) cache

/-- **The answer without a cache.** -/
def Request.fresh (compile : String → Except ε α) : Request → Option (Except ε α)
  | .lookup text => some (compile text)
  | .clear => none

/-- **A request is answered as without a cache**, and leaves a sound cache. -/
theorem Sound.serve (h : cache.Sound compile) (request : Request) :
    (cache.serve compile request).1 = request.fresh compile ∧
      (cache.serve compile request).2.Sound compile := by
  cases request with
  | lookup text => exact ⟨congrArg some (h.fst_lookup text), h.snd_lookup text⟩
  | clear => exact ⟨rfl, sound_empty compile⟩

theorem Sound.answers_eq (h : cache.Sound compile) (requests : List Request) :
    answers compile cache requests = requests.map (Request.fresh compile) := by
  induction requests generalizing cache with
  | nil => rfl
  | cons request requests ih =>
    obtain ⟨hanswer, hsound⟩ := h.serve request
    rw [answers, hanswer, ih hsound, List.map_cons]

theorem Sound.after (h : cache.Sound compile) (requests : List Request) :
    (cache.after compile requests).Sound compile := by
  induction requests generalizing cache with
  | nil => exact h
  | cons request requests ih => exact ih (h.serve request).2

/-- **The cache cannot be told from the compiler.**  Whatever compiles, and whatever was looked up
and cleared before: every lookup is answered as compiling its text afresh answers it.  At any time
the cache holds at most `capacity` entries, only texts that compile, none of them twice and each
with its own outcome.  A lookup that fails adds nothing to it, and what a lookup gave is found again
by the next lookup of that text, without compiling. -/
theorem serves_as_compiling (compile : String → Except ε α) (requests : List Request) :
    answers compile empty requests = requests.map (Request.fresh compile) ∧
      (empty.after compile requests).Sound compile ∧
      ∀ text,
        (∀ fault, ((empty.after compile requests).lookup compile text).1 = .error fault →
          ((empty.after compile requests).lookup compile text).2.entries ⊆
            (empty.after compile requests).entries) ∧
        ∀ value, ((empty.after compile requests).lookup compile text).1 = .ok value →
          ∀ other : String → Except ε α,
            ((empty.after compile requests).lookup compile text).2.lookup other text =
              (.ok value, ((empty.after compile requests).lookup compile text).2) := by
  have hsound := sound_empty compile
  exact ⟨hsound.answers_eq requests, hsound.after requests, fun text =>
    ⟨fun _ hfault => subset_of_lookup_eq_error hfault, fun _ hvalue => lookup_lookup hvalue⟩⟩

end ProbeWeaver.QueryCache
