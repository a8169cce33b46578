import CampelloNet.Lib.Keyed
import Mathlib.Data.List.Induction
import Mathlib.Order.Lattice

/-!
# Writes in the order of arrival

A store is written by messages, each a list of keys with their values, and the last write of a key
counts. Messages have a rank, by which one is newer than another, but they are applied in the order in
which they arrive: the newest one wins exactly if no key is written again, with another value, after
the newest message that writes it (`newest_wins_iff`), and it wins in every order exactly if the
messages do not differ (`newest_always_wins_iff`).
-/

namespace CampelloNet.Lib

variable {κ β μ ι : Type*} [DecidableEq κ] [LinearOrder ι]

/-- The value that is last written for a key. -/
def lastWrite (k : κ) (ws : List (κ × β)) : Option β := (lookup Prod.fst k ws.reverse).map Prod.snd

variable {k : κ}

@[simp] theorem lastWrite_nil : lastWrite k ([] : List (κ × β)) = none := rfl

theorem lastWrite_append (ws vs : List (κ × β)) :
    lastWrite k (ws ++ vs) = (lastWrite k vs).or (lastWrite k ws) := by
  unfold lastWrite lookup
  rw [List.reverse_append, List.find?_append, Option.map_or]

theorem lastWrite_eq_none_iff {ws : List (κ × β)} : lastWrite k ws = none ↔ ∀ v, (k, v) ∉ ws := by
  unfold lastWrite lookup
  rw [Option.map_eq_none_iff, List.find?_eq_none]
  constructor
  · intro h v hv
    exact h (k, v) (List.mem_reverse.mpr hv) (decide_eq_true rfl)
  · rintro h ⟨k', v⟩ hv hk
    obtain rfl : k' = k := of_decide_eq_true hk
    exact h v (List.mem_reverse.mp hv)

theorem lastWrite_mem {ws : List (κ × β)} {v : β} (h : lastWrite k ws = some v) : (k, v) ∈ ws := by
  obtain ⟨⟨k', v'⟩, hfind, rfl⟩ := Option.map_eq_some_iff.mp h
  obtain rfl : k' = k := lookup_key hfind
  exact List.mem_reverse.mp (lookup_mem hfind)

/-! ### Messages -/

section
variable (write : μ → List (κ × β)) (rank : μ → ι) (k : κ) (ms : List μ) (m : μ)

def Contains : Prop := (lastWrite k (write m)).isSome

instance : Decidable (Contains write k m) := inferInstanceAs (Decidable (_ = true))

/-- The message that arrives last of those that write the key. -/
def IsLast : Prop :=
  ∃ before after, ms = before ++ m :: after ∧ Contains write k m ∧ ∀ m' ∈ after, ¬Contains write k m'

/-- The message of the highest rank of those that write the key. -/
def IsNewest : Prop :=
  m ∈ ms ∧ Contains write k m ∧ ∀ m' ∈ ms, Contains write k m' → rank m' ≤ rank m

/-- For every key the value comes from the newest message that writes it. -/
def NewestWins : Prop :=
  ∀ k m, IsNewest write rank k ms m → lastWrite k (ms.flatMap write) = lastWrite k (write m)

end

variable {write : μ → List (κ × β)} {rank : μ → ι} {ms : List μ} {m n : μ}

theorem lastWrite_flatMap_eq_none (h : ∀ m ∈ ms, ¬Contains write k m) :
    lastWrite k (ms.flatMap write) = none := by
  rw [lastWrite_eq_none_iff]
  intro v hv
  obtain ⟨m, hm, hvm⟩ := List.mem_flatMap.mp hv
  refine h m hm ?_
  unfold Contains
  by_contra hnone
  rw [Option.not_isSome_iff_eq_none, lastWrite_eq_none_iff] at hnone
  exact hnone v hvm

theorem Contains.exists_mem (h : Contains write k m) : ∃ v, (k, v) ∈ write m := by
  obtain ⟨v, hv⟩ := Option.isSome_iff_exists.mp h
  exact ⟨v, lastWrite_mem hv⟩

theorem IsLast.lastWrite_eq (h : IsLast write k ms m) :
    lastWrite k (ms.flatMap write) = lastWrite k (write m) := by
  obtain ⟨before, after, rfl, hm, hafter⟩ := h
  obtain ⟨v, hv⟩ := Option.isSome_iff_exists.mp hm
  rw [List.flatMap_append, List.flatMap_cons, lastWrite_append, lastWrite_append,
    lastWrite_flatMap_eq_none hafter, hv]
  rfl

theorem exists_isLast (hm : m ∈ ms) (h : Contains write k m) : ∃ n, IsLast write k ms n := by
  induction ms using List.reverseRecOn with
  | nil => exact absurd hm List.not_mem_nil
  | append_singleton ms a ih =>
    by_cases ha : Contains write k a
    · exact ⟨a, ms, [], rfl, ha, fun _ h => absurd h List.not_mem_nil⟩
    · have hm' : m ∈ ms := by
        rcases List.mem_append.mp hm with hm | hm
        · exact hm
        · rw [List.mem_singleton] at hm
          exact absurd (hm ▸ h) ha
      obtain ⟨n, before, after, rfl, hn, hafter⟩ := ih hm'
      refine ⟨n, before, after ++ [a], by simp, hn, fun b hb => ?_⟩
      rcases List.mem_append.mp hb with hb | hb
      · exact hafter b hb
      · rwa [List.mem_singleton.mp hb]

theorem exists_isLast_of_isSome (h : (lastWrite k (ms.flatMap write)).isSome) :
    ∃ n, IsLast write k ms n := by
  by_contra hnone
  rw [lastWrite_flatMap_eq_none fun m hm hcontains => hnone (exists_isLast hm hcontains)] at h
  cases h

theorem exists_isNewest (rank : μ → ι) (hm : m ∈ ms) (h : Contains write k m) :
    ∃ n, IsNewest write rank k ms n := by
  induction ms generalizing m with
  | nil => exact absurd hm List.not_mem_nil
  | cons a ms ih =>
    by_cases hrest : ∃ b ∈ ms, Contains write k b
    · obtain ⟨b, hb, hcontains⟩ := hrest
      obtain ⟨n, hn, hkn, hmax⟩ := ih hb hcontains
      by_cases ha : Contains write k a ∧ rank n ≤ rank a
      · refine ⟨a, List.mem_cons_self, ha.1, fun c hc hkc => ?_⟩
        rcases List.mem_cons.mp hc with rfl | hc
        · exact le_refl _
        · exact le_trans (hmax c hc hkc) ha.2
      · refine ⟨n, List.mem_cons_of_mem _ hn, hkn, fun c hc hkc => ?_⟩
        rcases List.mem_cons.mp hc with rfl | hc
        · exact le_of_not_ge fun hle => ha ⟨hkc, hle⟩
        · exact hmax c hc hkc
    · have hall : ∀ c ∈ a :: ms, Contains write k c → c = a := by
        intro c hc hkc
        rcases List.mem_cons.mp hc with rfl | hc
        · rfl
        · exact absurd ⟨c, hc, hkc⟩ hrest
      have hma := hall m hm h
      exact ⟨a, List.mem_cons_self, hma ▸ h, fun c hc hkc => le_of_eq (congrArg rank (hall c hc hkc))⟩

theorem IsNewest.perm {order : List μ} (h : IsNewest write rank k ms n) (hperm : order.Perm ms) :
    IsNewest write rank k order n :=
  ⟨hperm.mem_iff.mpr h.1, h.2.1, fun m hm => h.2.2 m (hperm.mem_iff.mp hm)⟩

/-- The newest message wins if, for every key, it is the last to arrive or the last says the same. -/
theorem newest_wins_iff : NewestWins write rank ms ↔
    ∀ k m n, IsLast write k ms m → IsNewest write rank k ms n →
      lastWrite k (write m) = lastWrite k (write n) := by
  constructor
  · intro hwins k m n hlast hnewest
    rw [← hlast.lastWrite_eq]
    exact hwins k n hnewest
  · intro hsame k n hnewest
    obtain ⟨m, hlast⟩ := exists_isLast hnewest.1 hnewest.2.1
    rw [hlast.lastWrite_eq]
    exact hsame k m n hlast hnewest

/-- The newest message wins in every order if and only if all that write a key say the same. -/
theorem newest_always_wins_iff (rank : μ → ι) : (∀ order, order.Perm ms → NewestWins write rank order) ↔
    ∀ k, ∀ m ∈ ms, ∀ n ∈ ms, Contains write k m → Contains write k n →
      lastWrite k (write m) = lastWrite k (write n) := by
  constructor
  · intro hwins k
    -- any message can be the last
    have hnewest : ∀ m ∈ ms, Contains write k m → ∀ n, IsNewest write rank k ms n →
        lastWrite k (write m) = lastWrite k (write n) := by
      intro m hm hkm n hn
      obtain ⟨before, after, rfl⟩ := List.append_of_mem hm
      have hperm : (before ++ after ++ [m]).Perm (before ++ m :: after) :=
        (List.perm_append_singleton m _).trans List.perm_middle.symm
      have hlast : IsLast write k (before ++ after ++ [m]) m :=
        ⟨before ++ after, [], rfl, hkm, fun _ h => absurd h List.not_mem_nil⟩
      exact newest_wins_iff.mp (hwins _ hperm) k m n hlast (hn.perm hperm)
    intro m hm n hn hkm hkn
    obtain ⟨a, ha⟩ := exists_isNewest rank hm hkm
    rw [hnewest m hm hkm a ha, hnewest n hn hkn a ha]
  · intro hsame order hperm
    rw [newest_wins_iff]
    rintro k m n ⟨before, after, rfl, hkm, -⟩ hn
    have hm : m ∈ ms := hperm.mem_iff.mp (List.mem_append_right _ List.mem_cons_self)
    exact hsame k m hm n (hperm.mem_iff.mp hn.1) hkm hn.2.1

end CampelloNet.Lib
