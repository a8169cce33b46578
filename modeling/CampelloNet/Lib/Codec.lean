import Mathlib.Data.Vector.Basic
import Mathlib.Logic.Function.Basic

/-!
# Writers and readers that fit each other

A writer appends symbols to what it has written, a reader goes through symbols from a position, and
what is appended may depend on the position. A write and a read code a value if the write appends the
symbols of an encoding and the read, where it finds them, returns the value and stops behind them.
Codes of parts put together are codes of the whole.
-/

namespace CampelloNet.Lib

variable {β ω ρ α α' γ : Type}

/-- The symbols of a value that is written at a position. -/
abbrev Encoding (β : Type) := ℕ → List β

namespace Encoding

def nil : Encoding β := fun _ => []

/-- The one behind the other. -/
def seq (e e' : Encoding β) : Encoding β := fun n => e n ++ e' (n + (e n).length)

def all : List (Encoding β) → Encoding β
  | [] => nil
  | e :: es => e.seq (all es)

end Encoding

/-- What it means for a writer to have written some symbols, and for a reader to go through some
symbols and to stand at a position. -/
structure Medium (β ω ρ : Type) where
  written : ω → List β → Prop
  reading : ρ → List β → ℕ → Prop

namespace Medium

variable {M : Medium β ω ρ}

/-- The writer appends an encoding. -/
def Writes (M : Medium β ω ρ) (e : Encoding β) (write : ω → ω) : Prop :=
  ∀ w past, M.written w past → M.written (write w) (past ++ e past.length)

/-- Where the reader finds an encoding it returns the value and stops behind it. -/
def Reads (M : Medium β ω ρ) (e : Encoding β) (read : OptionT (StateM ρ) α) (x : α) : Prop :=
  ∀ r past rest, M.reading r (past ++ (e past.length ++ rest)) past.length →
    ∃ r', read r = (some x, r') ∧
      M.reading r' (past ++ (e past.length ++ rest)) (past.length + (e past.length).length)

/-- A write and a read that fit each other. -/
structure Codes (M : Medium β ω ρ) (e : Encoding β) (write : ω → ω) (read : OptionT (StateM ρ) α)
    (x : α) : Prop where
  writes : M.Writes e write
  reads : M.Reads e read x

/-! ### Nothing, one after the other, many -/

theorem run_bind_some {read : OptionT (StateM ρ) α} {next : α → OptionT (StateM ρ) γ} {r r' : ρ}
    {x : α} (h : read r = (some x, r')) : (read >>= next) r = next x r' := by
  change read.run.run r = _ at h
  change (read >>= next).run.run r = _
  rw [OptionT.run_bind, Option.elimM, StateT.run_bind, h]
  rfl

theorem run_bind_none {read : OptionT (StateM ρ) α} {next : α → OptionT (StateM ρ) γ} {r r' : ρ}
    (h : read r = (none, r')) : (read >>= next) r = (none, r') := by
  change read.run.run r = _ at h
  change (read >>= next).run.run r = _
  rw [OptionT.run_bind, Option.elimM, StateT.run_bind, h]
  rfl

/-- An action that does not fail, as a reader. -/
theorem run_lift_eq_some {act : StateM ρ α} {r r' : ρ} {x : α} :
    (OptionT.lift act : OptionT (StateM ρ) α) r = (some x, r') ↔ act r = (x, r') := by
  constructor
  · intro h
    obtain ⟨hresult, hstate⟩ := Prod.ext_iff.mp h
    exact Prod.ext (Option.some.inj hresult) hstate
  · intro h
    change (some (act r).1, (act r).2) = _
    rw [h]

theorem writes_id : M.Writes Encoding.nil id := by
  intro w past h
  simpa [Encoding.nil] using h

theorem reads_pure (x : α) : M.Reads Encoding.nil (pure x) x := by
  intro r past rest h
  exact ⟨r, rfl, h⟩

theorem Writes.seq {e e' : Encoding β} {write write' : ω → ω} (h : M.Writes e write)
    (h' : M.Writes e' write') : M.Writes (e.seq e') (write' ∘ write) := by
  intro w past hw
  have := h' _ _ (h w past hw)
  rw [List.append_assoc, List.length_append] at this
  exact this

/-- A reader that does the one and then the other, whatever it does where one of them fails. -/
theorem Reads.seq {e e' : Encoding β} {read : OptionT (StateM ρ) α} {read' : OptionT (StateM ρ) α'}
    {both : OptionT (StateM ρ) γ} {x : α} {y : α'} {z : γ} (h : M.Reads e read x)
    (h' : M.Reads e' read' y)
    (hboth : ∀ r r' r'', read r = (some x, r') → read' r' = (some y, r'') → both r = (some z, r'')) :
    M.Reads (e.seq e') both z := by
  intro r past rest hr
  unfold Encoding.seq at hr ⊢
  rw [List.append_assoc] at hr
  obtain ⟨r', hread, hr'⟩ := h r past _ hr
  have hlen : (past ++ e past.length).length = past.length + (e past.length).length :=
    List.length_append
  rw [← List.append_assoc, ← hlen] at hr'
  obtain ⟨r'', hread', hr''⟩ := h' r' (past ++ e past.length) rest hr'
  refine ⟨r'', hboth r r' r'' hread hread', ?_⟩
  rw [List.append_assoc, hlen] at hr''
  rw [List.append_assoc, List.length_append, ← Nat.add_assoc]
  exact hr''

/-- The second read may depend on what the first returned. -/
theorem Reads.bind {e e' : Encoding β} {read : OptionT (StateM ρ) α}
    {next : α → OptionT (StateM ρ) γ} {x : α} {y : γ} (h : M.Reads e read x)
    (h' : M.Reads e' (next x) y) : M.Reads (e.seq e') (read >>= next) y :=
  h.seq h' fun _ _ _ hread hnext => (run_bind_some hread).trans hnext

theorem Reads.map {e : Encoding β} {read : OptionT (StateM ρ) α} {x : α} (h : M.Reads e read x)
    (f : α → γ) : M.Reads e (f <$> read) (f x) := by
  intro r past rest hr
  obtain ⟨r', hread, hr'⟩ := h r past rest hr
  exact ⟨r', run_bind_some hread, hr'⟩

theorem Codes.map {e : Encoding β} {write : ω → ω} {read : OptionT (StateM ρ) α} {x : α}
    (h : M.Codes e write read x) (f : α → γ) : M.Codes e write (f <$> read) (f x) :=
  ⟨h.writes, h.reads.map f⟩

theorem Codes.bind {e e' : Encoding β} {write write' : ω → ω} {read : OptionT (StateM ρ) α}
    {next : α → OptionT (StateM ρ) γ} {x : α} {y : γ} (h : M.Codes e write read x)
    (h' : M.Codes e' write' (next x) y) : M.Codes (e.seq e') (write' ∘ write) (read >>= next) y :=
  ⟨h.writes.seq h'.writes, h.reads.bind h'.reads⟩

/-- The same read so many times. -/
def readEach (read : OptionT (StateM ρ) α) : (n : ℕ) → OptionT (StateM ρ) (List.Vector α n)
  | 0 => pure List.Vector.nil
  | n + 1 => do
    let x ← read
    let xs ← readEach read n
    pure (x ::ᵥ xs)

/-- Values that are coded one by one are coded in a row. -/
theorem codes_readEach {e : α → Encoding β} {write : α → ω → ω} {read : OptionT (StateM ρ) α} {n : ℕ}
    (xs : List.Vector α n) (h : ∀ x ∈ xs.toList, M.Codes (e x) (write x) read x) :
    M.Codes (Encoding.all (xs.toList.map e)) (fun w => xs.toList.foldl (fun w x => write x w) w)
      (readEach read n) xs := by
  induction xs using List.Vector.inductionOn with
  | nil => exact ⟨writes_id, reads_pure _⟩
  | cons ih =>
    rename_i n x xs
    rw [List.Vector.toList_cons] at h ⊢
    have hrest := ih fun y hy => h y (List.mem_cons_of_mem _ hy)
    have hfirst := h x List.mem_cons_self
    exact ⟨hfirst.writes.seq hrest.writes, hfirst.reads.bind (hrest.reads.map (x ::ᵥ ·))⟩

end Medium

end CampelloNet.Lib
