import Mathlib.Tactic

/-!
# Command lines as `getopt_long` reads them
-/

namespace GetOpt

/-- An entry of the table of long options. -/
structure LongOption where
  name : String
  hasArg : Bool
  /-- The variable that is set in place of a return of the value. -/
  flag : Option String
  val : Nat
deriving DecidableEq, Repr

/-- What a call returns, with the index of the long option and the argument that it leaves. -/
structure Ret where
  c : Int
  index : Int
  optarg : Option (List Char)
deriving DecidableEq, Repr

/-- The letters left of a cluster and the arguments behind it. -/
structure Scan where
  nextchar : List Char
  args : List (List Char)

def Scan.size (s : Scan) : Nat := s.nextchar.length + (s.args.map fun a => a.length + 1).sum

def done : Ret := ⟨-1, -1, none⟩

/-- The return of an unknown option, an ambiguous one, a missing argument and one too many. -/
def unknown : Ret := ⟨('?'.toNat : Nat), -1, none⟩

/-- Whether a letter is an option, and whether it has an argument. -/
def lookupShort (c : Char) : List Char → Option Bool
  | [] => none
  | x :: rest =>
    if x = c ∧ c ≠ ':' ∧ c ≠ ';' then some (decide (rest.head? = some ':')) else lookupShort c rest

def shortOption (optstring : List Char) (c : Char) (cluster : List Char)
    (args : List (List Char)) : Ret × Scan :=
  match lookupShort c optstring with
  | none => (unknown, ⟨cluster, args⟩)
  | some false => (⟨(c.toNat : Nat), -1, none⟩, ⟨cluster, args⟩)
  | some true =>
    if cluster ≠ [] then (⟨(c.toNat : Nat), -1, some cluster⟩, ⟨[], args⟩)
    else match args with
      | [] => (unknown, ⟨[], []⟩)
      | a :: args => (⟨(c.toNat : Nat), -1, some a⟩, ⟨[], args⟩)

/-- The entry with a name, or else the one that it abbreviates; entries that differ in nothing but
their names leave no doubt. -/
def findLong (table : List LongOption) (name : List Char) : Option (LongOption × Nat) :=
  match table.zipIdx.find? fun e => e.1.name.toList = name with
  | some e => some e
  | none =>
    match table.zipIdx.filter fun e => name.isPrefixOf e.1.name.toList with
    | [] => none
    | e :: rest =>
      if rest.all fun f => f.1.hasArg = e.1.hasArg ∧ f.1.flag = e.1.flag ∧ f.1.val = e.1.val
      then some e else none

def longRet (e : LongOption × Nat) (optarg : Option (List Char)) : Ret :=
  ⟨if e.1.flag.isSome then 0 else e.1.val, e.2, optarg⟩

/-- A long option without its two hyphens. -/
def longOption (table : List LongOption) (body : List Char) (args : List (List Char)) :
    Ret × Scan :=
  match findLong table (body.takeWhile (· ≠ '=')) with
  | none => (unknown, ⟨[], args⟩)
  | some e =>
    match body.dropWhile (· ≠ '=') with
    | _ :: value => if e.1.hasArg then (longRet e (some value), ⟨[], args⟩) else (unknown, ⟨[], args⟩)
    | [] =>
      if e.1.hasArg then
        match args with
        | [] => (unknown, ⟨[], []⟩)
        | a :: args => (longRet e (some a), ⟨[], args⟩)
      else (longRet e none, ⟨[], args⟩)

/-- The next option behind the arguments that are none; with `POSIXLY_CORRECT` the first of these is
the end. -/
def nextArg (posixly : Bool) (optstring : List Char) (table : List LongOption) :
    List (List Char) → Ret × Scan
  | [] => (done, ⟨[], []⟩)
  | a :: args =>
    match a with
    | '-' :: '-' :: body =>
      if body = [] then (done, ⟨[], []⟩) else longOption table body args
    | '-' :: c :: cluster => shortOption optstring c cluster args
    | _ => if posixly then (done, ⟨[], []⟩) else nextArg posixly optstring table args

def getoptLong (posixly : Bool) (optstring : List Char) (table : List LongOption) (s : Scan) :
    Ret × Scan :=
  match s.nextchar with
  | c :: cluster => shortOption optstring c cluster s.args
  | [] => nextArg posixly optstring table s.args

section Size

variable {posixly : Bool} {optstring : List Char} {table : List LongOption}

theorem shortOption_size (optstring : List Char) (c : Char) (cluster : List Char)
    (args : List (List Char)) :
    (shortOption optstring c cluster args).2.size ≤ (Scan.mk cluster args).size := by
  unfold shortOption
  split
  next => exact le_rfl
  next => exact le_rfl
  next =>
    split
    next => simp [Scan.size]
    next =>
      split
      next => simp [Scan.size]
      next => simp [Scan.size]; omega

theorem longOption_size (table : List LongOption) (body : List Char) (args : List (List Char)) :
    (longOption table body args).2.size ≤ (Scan.mk [] args).size := by
  unfold longOption
  split
  next => exact le_rfl
  next =>
    split
    next =>
      split
      next => exact le_rfl
      next => exact le_rfl
    next =>
      split
      next =>
        split
        next => exact le_rfl
        next => simp [Scan.size]
      next => exact le_rfl

theorem nextArg_size (args : List (List Char))
    (h : (nextArg posixly optstring table args).1.c ≠ -1) :
    (nextArg posixly optstring table args).2.size < (Scan.mk [] args).size := by
  induction args with
  | nil => exact absurd rfl h
  | cons a args ih =>
    unfold nextArg at h ⊢
    have hcons : (Scan.mk [] (a :: args)).size = a.length + 1 + (Scan.mk [] args).size := by
      simp [Scan.size]
    split at h
    next body =>
      split at h
      next => exact absurd rfl h
      next hb =>
        rw [if_neg hb, hcons]
        have hl := longOption_size table body args
        omega
    next c cluster hne =>
      have hs := shortOption_size optstring c cluster args
      simp only [hcons, List.length_cons]
      simp only [Scan.size, List.length_nil] at hs ⊢
      omega
    next =>
      split at h
      next => exact absurd rfl h
      next hp =>
        simp only [hcons]
        rw [if_neg hp]
        have hi := ih h
        omega

/-- A call that is not the last one leaves less to read. -/
theorem getoptLong_size (s : Scan) (h : (getoptLong posixly optstring table s).1.c ≠ -1) :
    (getoptLong posixly optstring table s).2.size < s.size := by
  obtain ⟨nextchar, args⟩ := s
  cases nextchar with
  | nil => exact nextArg_size args h
  | cons c cluster =>
    have hs := shortOption_size optstring c cluster args
    simp only [getoptLong]
    simp only [Scan.size, List.length_cons] at hs ⊢
    omega

end Size

/-- The returns of the calls in front of the last one. -/
def rets (posixly : Bool) (optstring : List Char) (table : List LongOption) (s : Scan) : List Ret :=
  if _h : (getoptLong posixly optstring table s).1.c = -1 then []
  else
    (getoptLong posixly optstring table s).1 ::
      rets posixly optstring table (getoptLong posixly optstring table s).2
termination_by s.size
decreasing_by exact getoptLong_size s _h

/-- A return that stands for an option of the letters or of the table. -/
inductive Known (optstring : List Char) (table : List LongOption) (r : Ret) : Prop
  | short (c : Char) (hc : lookupShort c optstring ≠ none) (h : r.c = (c.toNat : Nat))
  | aliased (o : LongOption) (i : Nat) (hi : table[i]? = some o) (hf : o.flag = none)
      (h : r.c = o.val)
  | long (o : LongOption) (i : Nat) (hi : table[i]? = some o) (hf : o.flag ≠ none)
      (h : r.c = 0) (hr : r.index = i)

section Known

variable {posixly : Bool} {optstring : List Char} {table : List LongOption}

theorem shortOption_known (optstring : List Char) (table : List LongOption) (c : Char)
    (cluster : List Char) (args : List (List Char)) :
    (shortOption optstring c cluster args).1 = unknown ∨
      Known optstring table (shortOption optstring c cluster args).1 := by
  unfold shortOption
  split
  next => exact .inl rfl
  next h => exact .inr (.short c (by simp [h]) rfl)
  next h =>
    split
    next => exact .inr (.short c (by simp [h]) rfl)
    next =>
      split
      next => exact .inl rfl
      next => exact .inr (.short c (by simp [h]) rfl)

theorem mem_of_findLong {name : List Char} {e : LongOption × Nat}
    (h : findLong table name = some e) : table[e.2]? = some e.1 := by
  have hmem : e ∈ table.zipIdx := by
    unfold findLong at h
    split at h
    next e' he =>
      obtain rfl := Option.some.inj h
      exact List.mem_of_find?_eq_some he
    next =>
      split at h
      next => cases h
      next e' rest he =>
        split at h
        next =>
          obtain rfl := Option.some.inj h
          have hm : e' ∈ table.zipIdx.filter fun e => name.isPrefixOf e.1.name.toList := by
            rw [he]
            exact List.mem_cons_self
          exact (List.mem_filter.mp hm).1
        next => cases h
  exact List.mk_mem_zipIdx_iff_getElem?.mp hmem

theorem longRet_known {e : LongOption × Nat} (h : table[e.2]? = some e.1)
    (optarg : Option (List Char)) : Known optstring table (longRet e optarg) := by
  cases hf : e.1.flag with
  | none =>
    refine .aliased e.1 e.2 h hf ?_
    rw [longRet, hf]
    rfl
  | some v =>
    refine .long e.1 e.2 h (by simp [hf]) ?_ rfl
    rw [longRet, hf]
    rfl

theorem longOption_known (body : List Char) (args : List (List Char)) :
    (longOption table body args).1 = unknown ∨
      Known optstring table (longOption table body args).1 := by
  unfold longOption
  split
  next => exact .inl rfl
  next e he =>
    have hk := mem_of_findLong he
    split
    next =>
      split
      next => exact .inr (longRet_known hk _)
      next => exact .inl rfl
    next =>
      split
      next =>
        split
        next => exact .inl rfl
        next => exact .inr (longRet_known hk _)
      next => exact .inr (longRet_known hk _)

theorem nextArg_known (args : List (List Char)) :
    (nextArg posixly optstring table args).1 = done ∨
      (nextArg posixly optstring table args).1 = unknown ∨
        Known optstring table (nextArg posixly optstring table args).1 := by
  induction args with
  | nil => exact .inl rfl
  | cons a args ih =>
    unfold nextArg
    split
    next =>
      split
      next => exact .inl rfl
      next => exact .inr (longOption_known _ args)
    next => exact .inr (shortOption_known optstring table _ _ args)
    next =>
      split
      next => exact .inl rfl
      next => exact ih

theorem getoptLong_known (s : Scan) : (getoptLong posixly optstring table s).1 = done ∨
    (getoptLong posixly optstring table s).1 = unknown ∨
      Known optstring table (getoptLong posixly optstring table s).1 := by
  unfold getoptLong
  split
  next => exact .inr (shortOption_known optstring table _ _ _)
  next => exact nextArg_known s.args

/-- Every return in front of the last one is that of an option, or tells of an error. -/
theorem known_of_mem_rets {s : Scan} {r : Ret} (h : r ∈ rets posixly optstring table s) :
    r = unknown ∨ Known optstring table r := by
  induction hn : s.size using Nat.strong_induction_on generalizing s with
  | _ n ih =>
    rw [rets] at h
    split at h
    next => cases h
    next hc =>
      rcases List.mem_cons.mp h with rfl | h
      · rcases getoptLong_known s with hd | hk
        · rw [hd] at hc
          exact absurd rfl hc
        · exact hk
      · have hlt := getoptLong_size s hc
        exact ih _ (hn ▸ hlt) h rfl

theorem rets_cons {s : Scan} (h : (getoptLong posixly optstring table s).1.c ≠ -1) :
    rets posixly optstring table s = (getoptLong posixly optstring table s).1 ::
      rets posixly optstring table (getoptLong posixly optstring table s).2 := by
  rw [rets, dif_neg h]

theorem rets_done {s : Scan} (h : (getoptLong posixly optstring table s).1.c = -1) :
    rets posixly optstring table s = [] := by
  rw [rets, dif_pos h]

end Known

end GetOpt
