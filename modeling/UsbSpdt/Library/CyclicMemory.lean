import Mathlib.Algebra.GroupWithZero.Nat
import Mathlib.Logic.Function.Basic

/-!
# Memory addressed modulo its size

A memory of `n` cells reached by arbitrary natural addresses. `store` writes a list of values at
consecutive addresses and `fetch` reads a stretch back; an address past the end wraps around, so
the last write to land on a cell decides what it holds.
-/

namespace CyclicMemory

variable {α : Type} {n : Nat} [NeZero n]

def write (m : Fin n → α) (a : Nat) (x : α) : Fin n → α := Function.update m (Fin.ofNat n a) x

def read (m : Fin n → α) (a : Nat) : α := m (Fin.ofNat n a)

def store (m : Fin n → α) (a : Nat) : List α → Fin n → α
  | [] => m
  | x :: xs => store (write m a x) (a + 1) xs

def fetch (m : Fin n → α) (a : Nat) : Nat → List α
  | 0 => []
  | len + 1 => read m a :: fetch m (a + 1) len

theorem ofNat_eq_iff {a b : Nat} : Fin.ofNat n a = Fin.ofNat n b ↔ a % n = b % n := by
  simp only [Fin.ofNat, Fin.mk.injEq]

theorem read_write_same {a b : Nat} (m : Fin n → α) (x : α) (h : b % n = a % n) :
    read (write m a x) b = x := by
  rw [read, write, ofNat_eq_iff.mpr h]
  exact Function.update_self ..

theorem read_write_ne {a b : Nat} (m : Fin n → α) (x : α) (h : b % n ≠ a % n) :
    read (write m a x) b = read m b := by
  exact Function.update_of_ne (fun he => h (ofNat_eq_iff.mp he)) ..

theorem write_congr {a b : Nat} (m : Fin n → α) (x : α) (h : a % n = b % n) :
    write m a x = write m b x := by
  rw [write, write, ofNat_eq_iff.mpr h]

theorem read_congr {a b : Nat} (m : Fin n → α) (h : a % n = b % n) : read m a = read m b := by
  rw [read, read, ofNat_eq_iff.mpr h]

@[simp] theorem fetch_length (m : Fin n → α) (a len : Nat) : (fetch m a len).length = len := by
  induction len generalizing a with
  | zero => rfl
  | succ len ih => simp only [fetch, List.length_cons, ih]

theorem fetch_getElem (m : Fin n → α) (a len k : Nat) (hk : k < (fetch m a len).length) :
    (fetch m a len)[k] = read m (a + k) := by
  induction len generalizing a k with
  | zero => simp at hk
  | succ len ih =>
    cases k with
    | zero => rfl
    | succ k =>
      simp only [fetch, List.getElem_cons_succ]
      rw [ih, Nat.add_assoc, Nat.add_comm 1 k]

theorem store_append (m : Fin n → α) (a : Nat) (xs ys : List α) :
    store m a (xs ++ ys) = store (store m a xs) (a + xs.length) ys := by
  induction xs generalizing m a with
  | nil => rfl
  | cons x xs ih =>
    simp only [List.cons_append, store, List.length_cons, ih]
    congr 1
    omega

theorem read_store_untouched (m : Fin n → α) (a b : Nat) (xs : List α)
    (h : ∀ k < xs.length, (a + k) % n ≠ b % n) : read (store m a xs) b = read m b := by
  induction xs generalizing m a with
  | nil => rfl
  | cons x xs ih =>
    rw [store, ih]
    · exact read_write_ne m x fun he => h 0 (by simp) he.symm
    · intro k hk
      have := h (k + 1) (by simpa using hk)
      rwa [Nat.add_assoc, Nat.add_comm 1 k]

theorem read_store_last (m : Fin n → α) (a b : Nat) (xs : List α) (k : Nat) (hk : k < xs.length)
    (hland : (a + k) % n = b % n) (hlast : xs.length ≤ k + n) : read (store m a xs) b = xs[k] := by
  induction xs generalizing m a k with
  | nil => simp at hk
  | cons x xs ih =>
    cases k with
    | zero =>
      rw [store, read_store_untouched]
      · exact read_write_same m x hland.symm
      · intro j hj he
        have hjn : j + 1 < n := by simp only [List.length_cons] at hlast; omega
        have hmod : (a + 0 + (j + 1)) % n = (a + 0) % n := by
          rw [hland, ← he]
          congr 1
          omega
        rw [Nat.add_zero] at hmod
        have hdvd : n ∣ j + 1 := by
          have h := Nat.sub_mod_eq_zero_of_mod_eq hmod
          rw [Nat.add_sub_cancel_left] at h
          exact Nat.dvd_of_mod_eq_zero h
        exact absurd (Nat.le_of_dvd (Nat.succ_pos j) hdvd) (by omega)
    | succ k =>
      simp only [store, List.getElem_cons_succ]
      apply ih
      · rw [← hland]
        congr 1
        omega
      · simp only [List.length_cons] at hlast
        omega

theorem fetch_store (m : Fin n → α) (a : Nat) (xs : List α) (h : xs.length ≤ n) :
    fetch (store m a xs) a xs.length = xs := by
  apply List.ext_getElem
  · exact fetch_length _ _ _
  · intro k hk hk'
    rw [fetch_getElem, read_store_last m a (a + k) xs k hk' rfl (by omega)]

theorem fetch_congr {m m' : Fin n → α} {a len : Nat}
    (h : ∀ k < len, read m (a + k) = read m' (a + k)) : fetch m a len = fetch m' a len := by
  apply List.ext_getElem
  · simp only [fetch_length]
  · intro k hk _
    rw [fetch_getElem, fetch_getElem, h k (by simpa using hk)]

theorem fetch_store_disjoint (m : Fin n → α) {a b len : Nat} {xs : List α} (ha : a + xs.length ≤ n)
    (hb : b + len ≤ n) (h : a + xs.length ≤ b ∨ b + len ≤ a) :
    fetch (store m a xs) b len = fetch m b len := by
  apply fetch_congr
  intro k hk
  apply read_store_untouched
  intro j hj
  rw [Nat.mod_eq_of_lt (by omega), Nat.mod_eq_of_lt (by omega)]
  omega

theorem read_store_congr {m m' : Fin n → α} {b : Nat} (h : read m b = read m' b) (a : Nat)
    (xs : List α) : read (store m a xs) b = read (store m' a xs) b := by
  induction xs generalizing m m' a with
  | nil => exact h
  | cons x xs ih =>
    apply ih
    by_cases hab : b % n = a % n
    · rw [read_write_same m x hab, read_write_same m' x hab]
    · rw [read_write_ne m x hab, read_write_ne m' x hab, h]

theorem exists_last_landing (a b len k : Nat) (hk : k < len) (hland : (a + k) % n = b % n) :
    ∃ k < len, (a + k) % n = b % n ∧ len ≤ k + n := by
  by_cases hlast : len ≤ k + n
  · exact ⟨k, hk, hland, hlast⟩
  · have hnpos : 0 < n := Nat.pos_of_neZero n
    refine exists_last_landing a b len (k + n) (by omega) ?_
    rw [← Nat.add_assoc, Nat.add_mod_right, hland]
  termination_by len - k

/-- A cell is unchanged exactly when the last value to land on it, if any, is the old one. -/
theorem read_store_eq_iff (m : Fin n → α) (a b : Nat) (xs : List α) :
    read (store m a xs) b = read m b ↔
      ∀ k (hk : k < xs.length), (a + k) % n = b % n → xs.length ≤ k + n → xs[k] = read m b := by
  constructor
  · intro h k hk hland hlast
    rw [← read_store_last m a b xs k hk hland hlast, h]
  · intro h
    by_cases hany : ∃ k < xs.length, (a + k) % n = b % n
    · obtain ⟨k, hk, hland⟩ := hany
      obtain ⟨l, hl, hland, hlast⟩ := exists_last_landing a b xs.length k hk hland
      rw [read_store_last m a b xs l hl hland hlast, h l hl hland hlast]
    · exact read_store_untouched m a b xs fun k hk hland => hany ⟨k, hk, hland⟩

/-! ### One write after another -/

def apply (m : Fin n → α) (ws : List (Nat × α)) : Fin n → α :=
  ws.foldl (fun m w => write m w.1 w.2) m

/-- The writes that `store` consists of. -/
def writes (a : Nat) : List α → List (Nat × α)
  | [] => []
  | x :: xs => (a, x) :: writes (a + 1) xs

theorem apply_append (m : Fin n → α) (ws vs : List (Nat × α)) :
    apply m (ws ++ vs) = apply (apply m ws) vs := List.foldl_append

theorem apply_writes (m : Fin n → α) (a : Nat) (xs : List α) :
    apply m (writes a xs) = store m a xs := by
  induction xs generalizing m a with
  | nil => rfl
  | cons x xs ih => exact ih (write m a x) (a + 1)

@[simp] theorem writes_length (a : Nat) (xs : List α) : (writes a xs).length = xs.length := by
  induction xs generalizing a with
  | nil => rfl
  | cons x xs ih => simp only [writes, List.length_cons, ih]

theorem writes_take (a : Nat) (xs : List α) (k : Nat) :
    (writes a xs).take k = writes a (xs.take k) := by
  induction xs generalizing a k with
  | nil => cases k <;> rfl
  | cons x xs ih =>
    cases k with
    | zero => rfl
    | succ k => simp only [writes, List.take_succ_cons, ih]

theorem mem_writes {a : Nat} {xs : List α} {w : Nat × α} (h : w ∈ writes a xs) :
    a ≤ w.1 ∧ w.1 < a + xs.length := by
  induction xs generalizing a with
  | nil => cases h
  | cons x xs ih =>
    rw [List.length_cons]
    rcases List.mem_cons.mp h with rfl | h
    · exact ⟨Nat.le_refl a, by omega⟩
    · have hrest := ih h
      omega

theorem read_apply_untouched (m : Fin n → α) (ws : List (Nat × α)) (b : Nat)
    (h : ∀ w ∈ ws, w.1 % n ≠ b % n) : read (apply m ws) b = read m b := by
  induction ws generalizing m with
  | nil => rfl
  | cons w ws ih =>
    have hfirst : read (write m w.1 w.2) b = read m b :=
      read_write_ne m w.2 fun he => h w List.mem_cons_self he.symm
    exact (ih (write m w.1 w.2) fun v hv => h v (List.mem_cons_of_mem w hv)).trans hfirst

theorem fetch_apply_untouched (m : Fin n → α) (ws : List (Nat × α)) (a len : Nat)
    (h : ∀ w ∈ ws, ∀ k < len, w.1 % n ≠ (a + k) % n) :
    fetch (apply m ws) a len = fetch m a len := by
  apply fetch_congr
  intro k hk
  exact read_apply_untouched m ws (a + k) fun w hw => h w hw k hk

theorem fetch_append (m : Fin n → α) (a i j : Nat) :
    fetch m a (i + j) = fetch m a i ++ fetch m (a + i) j := by
  induction i generalizing a with
  | zero => rw [Nat.zero_add]; rfl
  | succ i ih =>
    rw [Nat.succ_add]
    simp only [fetch, List.cons_append, ih, Nat.add_assoc, Nat.add_comm 1 i]

/-- A range whose first cells have been stored anew. -/
theorem fetch_store_front (m : Fin n → α) {a len : Nat} {xs : List α} (hx : xs.length ≤ len)
    (hn : a + len ≤ n) :
    fetch (store m a xs) a len = xs ++ (fetch m a len).drop xs.length := by
  obtain ⟨j, rfl⟩ := Nat.exists_eq_add_of_le hx
  rw [fetch_append, fetch_append, fetch_store m a xs (by omega),
    fetch_store_disjoint m (by omega) (by omega) (Or.inl (Nat.le_refl _)),
    List.drop_left' (fetch_length m a xs.length)]

/-! ### Several blocks -/

/-- Values at an address. -/
abbrev Block (α : Type) := Nat × List α

def Block.Apart (b c : Block α) : Prop := b.1 + b.2.length ≤ c.1 ∨ c.1 + c.2.length ≤ b.1

def storeBlocks (m : Fin n → α) (bs : List (Block α)) : Fin n → α :=
  bs.foldl (fun m b => store m b.1 b.2) m

def blockWrites (bs : List (Block α)) : List (Nat × α) := bs.flatMap fun b => writes b.1 b.2

theorem mem_blockWrites {bs : List (Block α)} {w : Nat × α} (h : w ∈ blockWrites bs) :
    ∃ b ∈ bs, b.1 ≤ w.1 ∧ w.1 < b.1 + b.2.length := by
  obtain ⟨b, hb, hw⟩ := List.mem_flatMap.mp h
  exact ⟨b, hb, mem_writes hw⟩

theorem apply_blockWrites (m : Fin n → α) (bs : List (Block α)) :
    apply m (blockWrites bs) = storeBlocks m bs := by
  induction bs generalizing m with
  | nil => rfl
  | cons b bs ih =>
    rw [blockWrites, List.flatMap_cons, apply_append, apply_writes]
    exact ih (store m b.1 b.2)

theorem fetch_storeBlocks_apart (m : Fin n → α) {bs : List (Block α)}
    (hin : ∀ c ∈ bs, c.1 + c.2.length ≤ n) {b : Block α} (hb : b.1 + b.2.length ≤ n)
    (hapart : ∀ c ∈ bs, b.Apart c) :
    fetch (storeBlocks m bs) b.1 b.2.length = fetch m b.1 b.2.length := by
  induction bs generalizing m with
  | nil => rfl
  | cons c bs ih =>
    have hfirst : fetch (store m c.1 c.2) b.1 b.2.length = fetch m b.1 b.2.length :=
      fetch_store_disjoint m (hin c List.mem_cons_self) hb
        (Or.symm (hapart c List.mem_cons_self))
    exact (ih (store m c.1 c.2) (fun d hd => hin d (List.mem_cons_of_mem c hd))
      fun d hd => hapart d (List.mem_cons_of_mem c hd)).trans hfirst

/-- Each of several blocks that do not overlap is found where it was stored. -/
theorem fetch_storeBlocks (m : Fin n → α) {bs : List (Block α)}
    (hin : ∀ c ∈ bs, c.1 + c.2.length ≤ n) (hapart : bs.Pairwise Block.Apart) {b : Block α}
    (hb : b ∈ bs) : fetch (storeBlocks m bs) b.1 b.2.length = b.2 := by
  induction bs generalizing m with
  | nil => cases hb
  | cons c bs ih =>
    rw [List.pairwise_cons] at hapart
    have hrest : ∀ d ∈ bs, d.1 + d.2.length ≤ n := fun d hd => hin d (List.mem_cons_of_mem c hd)
    rcases List.mem_cons.mp hb with rfl | hb
    · have hlen := hin b List.mem_cons_self
      exact (fetch_storeBlocks_apart _ hrest hlen hapart.1).trans (fetch_store m b.1 b.2 (by omega))
    · exact ih (store m c.1 c.2) hrest hapart.2 hb

end CyclicMemory
