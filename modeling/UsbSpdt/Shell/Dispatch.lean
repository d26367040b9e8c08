import UsbSpdt.Shell.Tokenizer

/-!
# The dispatch of a command

`cmdParse` looks a command up in a list of tables. The comment there says that the first hit is
taken, so that the table of an instrument comes before the common one; the `break` behind a hit
only leaves the loop over one table.
-/

namespace UsbSpdt

/-- What a command acts on: the context, the strings in `args` and everything else. -/
structure ShellState (σ : Type) where
  currentContext : List UInt8
  argv : List (List UInt8)
  /-- The string at address zero, which `args[0]` stands for on a line without arguments. -/
  atZero : List UInt8
  memory : σ

def ShellState.args0 {σ : Type} (s : ShellState σ) : List UInt8 := s.argv.headD s.atZero

structure DispatchEntry (σ : Type) where
  context : List UInt8
  cmd : List UInt8
  cmdp : Option (Nat → ShellState σ → Int32 × ShellState σ)

/-- The entry is for `args[0]`, here or in every context. -/
def DispatchEntry.hits {σ : Type} (e : DispatchEntry σ) (s : ShellState σ) : Bool :=
  s.args0 = e.cmd ∧ (s.currentContext = e.context ∨ e.context.head? = some 0x2a)

/-- `cmdParse` from the dispatch on, with the entries whose command it has called. -/
structure Dispatch (σ : Type) where
  state : ShellState σ
  cmdErr : Int32
  hit : Bool
  calls : List (DispatchEntry σ)

namespace Dispatch

variable {σ : Type}

def start (s : ShellState σ) : Dispatch σ := ⟨s, 0, false, []⟩

def call (argc : Nat) (d : Dispatch σ) (e : DispatchEntry σ) : Dispatch σ :=
  match e.cmdp with
  | some cmdp =>
    let (rval, state) := cmdp argc d.state
    ⟨state, rval, true, d.calls ++ [e]⟩
  | none => { d with hit := true }

/-- The loop over one table. -/
def scanTable (argc : Nat) (d : Dispatch σ) : List (DispatchEntry σ) → Dispatch σ
  | [] => d
  | e :: table => if e.hits d.state then d.call argc e else scanTable argc d table

end Dispatch

/-- Behind the loops. -/
def Dispatch.finish {σ : Type} (d : Dispatch σ) : Dispatch σ :=
  if d.hit then d else { d with cmdErr := 0xfe } -- not recognized

/-- No command: the line is dropped before the tables are looked at. -/
def ShellState.dropped {σ : Type} (s : ShellState σ) : Bool :=
  s.args0 = [] ∨ s.args0.head? = some 0xb0

/-- `cmdParse` behind the tokenizer. -/
def dispatch {σ : Type} (tables : List (List (DispatchEntry σ))) (argc : Nat) (s : ShellState σ) :
    Dispatch σ :=
  if s.dropped then .start s else (tables.foldl (Dispatch.scanTable argc) (.start s)).finish

def cmdParse {σ : Type} (tables : List (List (DispatchEntry σ))) (cmdstr : List UInt8)
    (s : ShellState σ) : Dispatch σ :=
  let t := tokenize cmdstr
  let s := { s with argv := t.argv }
  match t.unmatched with
  | none => dispatch tables t.argc s
  | some _ => ⟨s, 0xff, false, []⟩

/-- What the comment promises: the first entry that hits, and no other, is called. -/
def FirstHit {σ : Type} (tables : List (List (DispatchEntry σ))) (argc : Nat) (s : ShellState σ)
    (d : Dispatch σ) : Prop :=
  match tables.flatten.find? (·.hits s) with
  | none => d.calls = [] ∧ d.cmdErr = 0xfe
  | some e =>
    match e.cmdp with
    | none => d.calls = []
    | some cmdp => d.calls = [e] ∧ d.cmdErr = (cmdp argc s).1

/-- No table calls a command in the state `s`. -/
def Quiet {σ : Type} (s : ShellState σ) (tables : List (List (DispatchEntry σ))) : Prop :=
  ∀ table ∈ tables, ∀ e, table.find? (·.hits s) = some e → e.cmdp = none

/-- The tables behind the first hit call nothing in the state that it leaves. -/
def QuietAfterHit {σ : Type} (argc : Nat) (s : ShellState σ) :
    List (List (DispatchEntry σ)) → Prop
  | [] => True
  | table :: tables =>
    match table.find? (·.hits s) with
    | none => QuietAfterHit argc s tables
    | some e => Quiet ((Dispatch.start s).call argc e).state tables

namespace Dispatch

variable {σ : Type} (argc : Nat)

theorem scanTable_eq (d : Dispatch σ) (table : List (DispatchEntry σ)) :
    scanTable argc d table =
      match table.find? (·.hits d.state) with
      | none => d
      | some e => d.call argc e := by
  induction table with
  | nil => rfl
  | cons e table ih =>
    rw [scanTable, List.find?_cons]
    cases e.hits d.state with
    | true => rfl
    | false => exact ih

theorem call_of_none {e : DispatchEntry σ} (h : e.cmdp = none) (d : Dispatch σ) :
    d.call argc e = { d with hit := true } := by
  rw [call, h]

theorem call_of_some {e : DispatchEntry σ} {cmdp : Nat → ShellState σ → Int32 × ShellState σ}
    (h : e.cmdp = some cmdp) (d : Dispatch σ) :
    d.call argc e = ⟨(cmdp argc d.state).2, (cmdp argc d.state).1, true, d.calls ++ [e]⟩ := by
  rw [call, h]

/-- Calls are never taken back, nor is a hit. -/
theorem scanTable_grows (d : Dispatch σ) (table : List (DispatchEntry σ)) :
    d.calls.length ≤ (scanTable argc d table).calls.length ∧
      (d.hit = true → (scanTable argc d table).hit = true) := by
  rw [scanTable_eq]
  split
  case h_1 => exact ⟨Nat.le_refl _, id⟩
  case h_2 e _ =>
    cases hcmdp : e.cmdp with
    | none =>
      rw [call_of_none argc hcmdp]
      exact ⟨Nat.le_refl _, fun _ => rfl⟩
    | some cmdp =>
      rw [call_of_some argc hcmdp, List.length_append]
      exact ⟨Nat.le_add_right _ _, fun _ => rfl⟩

theorem foldl_grows (tables : List (List (DispatchEntry σ))) (d : Dispatch σ) :
    d.calls.length ≤ (tables.foldl (scanTable argc) d).calls.length ∧
      (d.hit = true → (tables.foldl (scanTable argc) d).hit = true) := by
  induction tables generalizing d with
  | nil => exact ⟨Nat.le_refl _, id⟩
  | cons table tables ih =>
    obtain ⟨hcalls, hhit⟩ := scanTable_grows argc d table
    obtain ⟨hcalls', hhit'⟩ := ih (scanTable argc d table)
    exact ⟨Nat.le_trans hcalls hcalls', fun h => hhit' (hhit h)⟩

/-- A quiet table leaves nothing but a hit. -/
theorem scanTable_quiet {d : Dispatch σ} {table : List (DispatchEntry σ)}
    (h : ∀ e, table.find? (·.hits d.state) = some e → e.cmdp = none) :
    ∃ hit, scanTable argc d table = { d with hit } := by
  rw [scanTable_eq]
  split
  case h_1 => exact ⟨d.hit, rfl⟩
  case h_2 e he => exact ⟨true, call_of_none argc (h e he) d⟩

theorem foldl_quiet {tables : List (List (DispatchEntry σ))} {d : Dispatch σ}
    (h : Quiet d.state tables) : ∃ hit, tables.foldl (scanTable argc) d = { d with hit } := by
  induction tables generalizing d with
  | nil => exact ⟨d.hit, rfl⟩
  | cons table tables ih =>
    obtain ⟨hit, hscan⟩ := scanTable_quiet argc (h table (List.mem_cons_self ..))
    have hrest : Quiet ({ d with hit } : Dispatch σ).state tables :=
      fun t ht => h t (List.mem_cons_of_mem table ht)
    obtain ⟨hit', hfold⟩ := ih hrest
    exact ⟨hit', by rw [List.foldl_cons, hscan, hfold]⟩

/-- Nothing more is called exactly when the tables are quiet. -/
theorem foldl_calls_iff (tables : List (List (DispatchEntry σ))) (d : Dispatch σ) :
    (tables.foldl (scanTable argc) d).calls = d.calls ↔ Quiet d.state tables := by
  constructor
  case mpr =>
    intro h
    obtain ⟨hit, hfold⟩ := foldl_quiet argc h
    rw [hfold]
  case mp =>
    intro h
    induction tables generalizing d with
    | nil => exact fun table htable => absurd htable List.not_mem_nil
    | cons table tables ih =>
      rw [List.foldl_cons] at h
      have hquiet : ∀ e, table.find? (·.hits d.state) = some e → e.cmdp = none := by
        intro e he
        cases hcmdp : e.cmdp with
        | none => rfl
        | some cmdp =>
          have hscan : (scanTable argc d table).calls = d.calls ++ [e] := by
            rw [scanTable_eq, he]
            dsimp only
            rw [call_of_some argc hcmdp]
          have hle := (foldl_grows argc tables (scanTable argc d table)).1
          rw [h, hscan, List.length_append, List.length_singleton] at hle
          omega
      obtain ⟨hit, hscan⟩ := scanTable_quiet argc hquiet
      rw [hscan] at h
      have hrest := ih { d with hit } h
      intro t ht
      rcases List.mem_cons.mp ht with rfl | ht
      · exact hquiet
      · exact hrest t ht

theorem finish_calls (d : Dispatch σ) : d.finish.calls = d.calls := by
  rw [finish]
  split
  case isTrue => rfl
  case isFalse => rfl

end Dispatch

open Dispatch

variable {σ : Type} {table : List (DispatchEntry σ)} {argc : Nat} {s : ShellState σ}

theorem firstHit_of_none (h : table.find? (·.hits s) = none)
    (tables : List (List (DispatchEntry σ))) (d : Dispatch σ) :
    FirstHit (table :: tables) argc s d ↔ FirstHit tables argc s d := by
  rw [FirstHit, FirstHit, List.flatten_cons, List.find?_append, h, Option.none_or]

theorem firstHit_of_some {e : DispatchEntry σ} (h : table.find? (·.hits s) = some e)
    (tables : List (List (DispatchEntry σ))) (d : Dispatch σ) :
    FirstHit (table :: tables) argc s d ↔
      match e.cmdp with
      | none => d.calls = []
      | some cmdp => d.calls = [e] ∧ d.cmdErr = (cmdp argc s).1 := by
  rw [FirstHit, List.flatten_cons, List.find?_append, h, Option.some_or]

/-- The first hit and nothing else is called exactly when the tables behind it are quiet. -/
theorem scan_first_hit_iff (tables : List (List (DispatchEntry σ))) (argc : Nat)
    (s : ShellState σ) :
    FirstHit tables argc s (tables.foldl (scanTable argc) (.start s)).finish ↔
      QuietAfterHit argc s tables := by
  induction tables with
  | nil => exact iff_of_true ⟨rfl, rfl⟩ trivial
  | cons table tables ih =>
    have hscan := scanTable_eq argc (.start s) table
    change scanTable argc (.start s) table = match table.find? (·.hits s) with
      | none => .start s
      | some e => (start s).call argc e at hscan
    rw [List.foldl_cons, hscan, QuietAfterHit]
    cases hfind : table.find? (·.hits s) with
    | none => exact (firstHit_of_none hfind tables _).trans ih
    | some e =>
      dsimp only
      rw [firstHit_of_some hfind, finish_calls]
      have hcalls := foldl_calls_iff argc tables ((start s).call argc e)
      cases hcmdp : e.cmdp with
      | none =>
        rw [call_of_none argc hcmdp] at hcalls ⊢
        exact hcalls
      | some cmdp =>
        have hcall := call_of_some argc hcmdp (start s)
        have hfirst : ((start s).call argc e).calls = [e] := by
          rw [hcall]
          rfl
        rw [hfirst] at hcalls
        refine ⟨fun h => hcalls.mp h.1, fun h => ⟨hcalls.mpr h, ?_⟩⟩
        obtain ⟨hit, hfold⟩ := foldl_quiet argc h
        have hhit := (foldl_grows argc tables ((start s).call argc e)).2 (by rw [hcall])
        rw [finish, if_pos hhit, hfold, hcall]
        rfl

/-- A line is dispatched as promised exactly when the tables behind the first hit call nothing in
the state that its command leaves. A line that is dropped calls nothing and is no error, which is
the promise only for a hit without a command. -/
theorem dispatch_first_hit_iff (tables : List (List (DispatchEntry σ))) (argc : Nat)
    (s : ShellState σ) :
    FirstHit tables argc s (dispatch tables argc s) ↔
      if s.dropped then ∃ e, tables.flatten.find? (·.hits s) = some e ∧ e.cmdp = none
      else QuietAfterHit argc s tables := by
  rw [dispatch]
  by_cases hdropped : s.dropped = true
  case neg =>
    rw [if_neg hdropped, if_neg hdropped]
    exact scan_first_hit_iff tables argc s
  case pos =>
    rw [if_pos hdropped, if_pos hdropped, FirstHit]
    cases hfind : tables.flatten.find? (·.hits s) with
    | none =>
      refine iff_of_false (fun h => absurd (show (0 : Int32) = 0xfe from h.2) (by decide)) ?_
      rintro ⟨e, he, -⟩
      cases he
    | some e =>
      dsimp only
      cases hcmdp : e.cmdp with
      | none => exact iff_of_true rfl ⟨e, rfl, hcmdp⟩
      | some cmdp =>
        refine iff_of_false (fun h => absurd h.1 (List.cons_ne_nil e []).symm) ?_
        rintro ⟨_, he, hnone⟩
        cases he
        rw [hcmdp] at hnone
        cases hnone

def cmdExit (_argc : Nat) (s : ShellState σ) : Int32 × ShellState σ :=
  (0, { s with currentContext := [] })

/-- An instrument table with an `exit` of its own does not keep the common one from being called. -/
theorem both_exits_called :
    ¬ ∀ (tables : List (List (DispatchEntry Unit))) (argc : Nat) (s : ShellState Unit),
      FirstHit tables argc s (dispatch tables argc s) := by
  intro h
  let e : DispatchEntry Unit := ⟨[0x2a], [0x65, 0x78, 0x69, 0x74], some cmdExit⟩
  have hfirst := h [[e], [e]] 1 ⟨[], [[0x65, 0x78, 0x69, 0x74]], [], ()⟩
  have hcalls : [e, e] = [e] := hfirst.1
  exact absurd (congrArg List.length hcalls) (by decide)

end UsbSpdt
