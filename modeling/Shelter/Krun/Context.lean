import Mathlib.Data.List.Nodup
import Shelter.Kernel.Cmdline
import Shelter.Memory.GuestMemory

/-!
# The configuration of a context

What the `krun_set_*` calls keep of the texts that they are given. `exec_determined_iff`: which
arguments can be read back from the text that `krun_set_exec` makes of them. `port_map_iff`: which
port maps `krun_set_port_map` accepts.
-/

namespace Shelter.Krun

open Kernel List

/-- A C string: its text, or `none` if it is not UTF-8. -/
abbrev CStr := Option Str

def maxArgs : ℕ := 4096

inductive NetworkConfig
  /-- The ports of the guest, each with that of the host. -/
  | tsi (portMap : Option (List (U16 × U16)))
  | virtioNetPasst (fd : ℤ)
  | virtioNetGvproxy (path : Str)
  deriving DecidableEq, Repr

structure ContextConfig where
  workdir : Option Str
  execPath : Option Str
  env : Option Str
  args : Option Str
  rlimits : Option Str
  netCfg : NetworkConfig
  deriving DecidableEq, Repr

def ContextConfig.default : ContextConfig := ⟨none, none, none, none, none, .tsi none⟩

inductive KrunError
  | einval
  | enoent
  | enotsup
  deriving DecidableEq, Repr

abbrev CtxMap := U32 → Option ContextConfig

/-- The end of each call: a context that exists is changed. -/
def withCtx (ctxs : CtxMap) (ctxId : U32) (f : ContextConfig → Except KrunError ContextConfig) :
    Except KrunError Unit × CtxMap :=
  match ctxs ctxId with
  | none => (.error .enoent, ctxs)
  | some cfg =>
    match f cfg with
    | .error e => (.error e, ctxs)
    | .ok cfg' => (.ok (), Function.update ctxs ctxId (some cfg'))

def quoted (s : Str) : Str := '"' :: s ++ ['"']

/-- `none` if a string is not UTF-8. -/
def collapseStrArray (array : List CStr) : Option Str :=
  ((array.take maxArgs).mapM id).map fun strvec => [' '].intercalate (strvec.map quoted)

/-- The environment of a call, or without one that of the process. -/
def collapseEnv (envp : Option (List CStr)) (vars : List (Str × Str)) : Option Str :=
  match envp with
  | some array => collapseStrArray array
  | none => some (vars.flatMap fun v => ' ' :: v.1 ++ '=' :: quoted v.2)

def krunSetExec (ctxs : CtxMap) (ctxId : U32) (execPath : CStr) (argv envp : Option (List CStr))
    (vars : List (Str × Str)) : Except KrunError Unit × CtxMap :=
  match execPath, argv.elim (some []) collapseStrArray, collapseEnv envp vars with
  | some path, some args, some env => withCtx ctxs ctxId fun cfg =>
      .ok { cfg with execPath := some path, env := some env, args := some args }
  | _, _, _ => (.error .einval, ctxs)

def krunSetEnv (ctxs : CtxMap) (ctxId : U32) (envp : Option (List CStr)) (vars : List (Str × Str)) :
    Except KrunError Unit × CtxMap :=
  match collapseEnv envp vars with
  | some env => withCtx ctxs ctxId fun cfg => .ok { cfg with env := some env }
  | none => (.error .einval, ctxs)

def krunSetWorkdir (ctxs : CtxMap) (ctxId : U32) (workdir : CStr) :
    Except KrunError Unit × CtxMap :=
  match workdir with
  | some workdir => withCtx ctxs ctxId fun cfg => .ok { cfg with workdir := some workdir }
  | none => (.error .einval, ctxs)

def krunSetRlimits (ctxs : CtxMap) (ctxId : U32) (rlimits : Option (List CStr)) :
    Except KrunError Unit × CtxMap :=
  match rlimits.bind fun array => (array.take maxArgs).mapM id with
  | some strvec => withCtx ctxs ctxId fun cfg =>
      .ok { cfg with rlimits := some (quoted ([','].intercalate strvec)) }
  | none => (.error .einval, ctxs)

/-! ## Arguments -/

/-- No quote of the text stands before a space. -/
def Unbroken (s : Str) : Prop := ¬ ['"', ' '] <:+: s
  deriving Decidable

/-- What can follow a quoted string. -/
def Follows (t : Str) : Prop := t = [] ∨ ∃ t', t = ' ' :: t'

theorem quote_not_inside {s t x y c : Str} (hs : Unbroken s) (hy : Follows y)
    (hsplit : s = t ++ c) (heq : '"' :: y = c ++ '"' :: x) : c = [] := by
  cases c with
  | nil => rfl
  | cons a c =>
    obtain ⟨rfl, rfl⟩ := cons.inj heq
    cases c with
    | nil =>
      obtain h | ⟨_, h⟩ := hy <;> cases h
    | cons b c =>
      obtain h | ⟨_, h⟩ := hy
      · cases h
      · cases h
        exact absurd ⟨t, c, by rw [hsplit]; simp⟩ hs

theorem quoted_inj {s t x y : Str} (hs : Unbroken s) (ht : Unbroken t) (hx : Follows x)
    (hy : Follows y) (heq : s ++ '"' :: x = t ++ '"' :: y) : s = t ∧ x = y := by
  rcases append_eq_append_iff.mp heq with ⟨c, hc, hrest⟩ | ⟨c, hc, hrest⟩
  · obtain rfl := quote_not_inside ht hx hc hrest
    exact ⟨by rw [hc, append_nil], (cons.inj hrest).2⟩
  · obtain rfl := quote_not_inside hs hy hc hrest
    exact ⟨by rw [hc, append_nil], (cons.inj hrest).2.symm⟩

def collapsed (l : List Str) : Str := [' '].intercalate (l.map quoted)

theorem collapsed_cons (s : Str) (l : List Str) :
    ∃ t, Follows t ∧ collapsed (s :: l) = '"' :: (s ++ '"' :: t) ∧
      ((l = [] ∧ t = []) ∨ (l ≠ [] ∧ t = ' ' :: collapsed l)) := by
  cases l with
  | nil => exact ⟨[], .inl rfl, by simp [collapsed, quoted, intercalate], .inl ⟨rfl, rfl⟩⟩
  | cons s' l =>
    refine ⟨_, .inr ⟨_, rfl⟩, ?_, .inr ⟨cons_ne_nil _ _, rfl⟩⟩
    simp only [collapsed, map_cons]
    rw [intercalate_cons_cons]
    simp [quoted]

theorem collapsed_injective {l l' : List Str} (hl : ∀ s ∈ l, Unbroken s)
    (hl' : ∀ s ∈ l', Unbroken s) (heq : collapsed l = collapsed l') : l = l' := by
  induction l generalizing l' with
  | nil =>
    cases l' with
    | nil => rfl
    | cons s' l' =>
      obtain ⟨t, -, ht, -⟩ := collapsed_cons s' l'
      cases heq.trans ht
  | cons s l ih =>
    obtain ⟨t, hfollows, ht, hrest⟩ := collapsed_cons s l
    cases l' with
    | nil => cases ht.symm.trans heq
    | cons s' l' =>
      obtain ⟨t', hfollows', ht', hrest'⟩ := collapsed_cons s' l'
      obtain ⟨rfl, rfl⟩ := quoted_inj (hl s mem_cons_self) (hl' s' mem_cons_self) hfollows
        hfollows' (cons.inj (ht.symm.trans (heq.trans ht'))).2
      rcases hrest with ⟨rfl, rfl⟩ | ⟨hne, rfl⟩ <;> rcases hrest' with ⟨rfl, hr⟩ | ⟨hne', hr⟩
      · rfl
      · cases hr
      · cases hr
      · rw [ih (fun s hs => hl s (mem_cons_of_mem _ hs)) (fun s hs => hl' s (mem_cons_of_mem _ hs))
          (cons.inj hr).2]

theorem mapM_some (l : List Str) : (l.map some).mapM id = some l := by
  induction l with
  | nil => rfl
  | cons s l ih => simp [ih]

theorem collapseStrArray_some {l : List Str} (hl : l.length < maxArgs) :
    collapseStrArray (l.map some) = some (collapsed l) := by
  rw [collapseStrArray, take_of_length_le (by simpa using hl.le), mapM_some]
  rfl

/-- The strings with what `collapse_str_array` puts between two of them. -/
def joined (l : List Str) : Str := ['"', ' ', '"'].intercalate l

theorem joined_singleton (s : Str) : joined [s] = s := by simp [joined, intercalate]

theorem collapsed_eq_quoted {l : List Str} (hne : l ≠ []) : collapsed l = quoted (joined l) := by
  induction l with
  | nil => exact absurd rfl hne
  | cons s l ih =>
    cases l with
    | nil => simp [collapsed, joined, quoted, intercalate]
    | cons s' l =>
      have hrest := ih (cons_ne_nil _ _)
      simp only [collapsed, joined, map_cons] at hrest ⊢
      rw [intercalate_cons_cons, intercalate_cons_cons, hrest]
      simp [quoted]

theorem collapsed_eq_nil {l : List Str} (h : collapsed l = []) : l = [] := by
  by_contra hne
  rw [collapsed_eq_quoted hne] at h
  cases h

theorem joined_eq_of_collapsed {l l' : List Str} (hne : l ≠ []) (hne' : l' ≠ [])
    (h : collapsed l = collapsed l') : joined l = joined l' := by
  rw [collapsed_eq_quoted hne, collapsed_eq_quoted hne'] at h
  exact append_inj_left' (cons.inj h).2 rfl

/-- At most one string, which does not look like two. -/
def Determined (l : List Str) : Prop := l.length ≤ 1 ∧ ∀ s ∈ l, ¬ ['"', ' ', '"'] <:+: s

theorem Determined.eq {l l' : List Str} (hl : Determined l) (heq : collapsed l' = collapsed l) :
    l' = l := by
  obtain ⟨hlength, hsep⟩ := hl
  match l with
  | [] => exact collapsed_eq_nil heq
  | [s] =>
    have hne : l' ≠ [] := by rintro rfl; cases heq
    have hjoined : joined l' = s :=
      (joined_eq_of_collapsed hne (cons_ne_nil _ _) heq).trans (joined_singleton s)
    match l' with
    | [] => exact absurd rfl hne
    | [s'] => rw [← hjoined, joined_singleton]
    | s' :: s'' :: rest =>
      refine absurd ⟨s', joined (s'' :: rest), ?_⟩ (hsep s (mem_singleton_self s))
      rw [← hjoined]
      exact (intercalate_cons_cons).symm
  | _ :: _ :: _ => simp at hlength

/-- The text of a list stands for it alone exactly if the list is `Determined`: several strings have
the text of the one string that has the quotes and spaces between them. -/
theorem determined_iff (l : List Str) :
    (∀ l' : List Str, l'.length < maxArgs → collapsed l' = collapsed l → l' = l) ↔
      Determined l := by
  refine ⟨fun h => ?_, fun hl l' _ => hl.eq⟩
  have hmax : ∀ {n}, n ≤ 2 → n < maxArgs := fun hn => hn.trans_lt (by decide)
  rcases eq_or_ne l [] with rfl | hne
  · exact ⟨Nat.zero_le _, nofun⟩
  · have hone : [joined l] = l := by
      refine h [joined l] (hmax (by simp)) ?_
      rw [collapsed_eq_quoted hne, collapsed_eq_quoted (cons_ne_nil _ _), joined_singleton]
    generalize joined l = s at hone
    subst hone
    refine ⟨le_rfl, forall_mem_singleton.mpr ?_⟩
    rintro ⟨a, b, rfl⟩
    have htwo := h [a, b] (hmax le_rfl) (by simp [collapsed, quoted, intercalate])
    exact cons_ne_nil _ _ (cons.inj htwo).2

/-- What a context has for a program with its arguments and environment. -/
def storedExec (ctxs : CtxMap) (ctxId : U32) (vars : List (Str × Str)) (path : Str)
    (argv envp : List Str) : Option ContextConfig :=
  (krunSetExec ctxs ctxId (some path) (some (argv.map some)) (some (envp.map some)) vars).2 ctxId

theorem storedExec_eq {ctxs : CtxMap} {ctxId : U32} {cfg : ContextConfig}
    (hctx : ctxs ctxId = some cfg) (vars : List (Str × Str)) (path : Str) {argv envp : List Str}
    (hargv : argv.length < maxArgs) (henvp : envp.length < maxArgs) :
    storedExec ctxs ctxId vars path argv envp = some { cfg with
      execPath := some path, env := some (collapsed envp), args := some (collapsed argv) } := by
  simp [storedExec, krunSetExec, collapseEnv, collapseStrArray_some hargv,
    collapseStrArray_some henvp, withCtx, hctx]

/-- **Arguments.** No other list has the text that `krun_set_exec` stores for a list exactly if the
list is `Determined`; the same holds for the environment. Lists of strings in which no quote stands
before a space are told apart among each other. -/
theorem exec_determined_iff {ctxs : CtxMap} {ctxId : U32} {cfg : ContextConfig}
    (hctx : ctxs ctxId = some cfg) (vars : List (Str × Str)) (path : Str) {argv envp : List Str}
    (hargv : argv.length < maxArgs) (henvp : envp.length < maxArgs) :
    let stored := storedExec ctxs ctxId vars path
    ((∀ argv' : List Str, argv'.length < maxArgs →
        (stored argv' envp).map (·.args) = (stored argv envp).map (·.args) → argv' = argv) ↔
      Determined argv) ∧
    ((∀ envp' : List Str, envp'.length < maxArgs →
        (stored argv envp').map (·.env) = (stored argv envp).map (·.env) → envp' = envp) ↔
      Determined envp) ∧
    ∀ argv' envp' : List Str, argv'.length < maxArgs → envp'.length < maxArgs →
      (∀ l ∈ [argv, argv', envp, envp'], ∀ s ∈ l, Unbroken s) →
      ((stored argv' envp').map (·.args) = (stored argv envp).map (·.args) → argv' = argv) ∧
        ((stored argv' envp').map (·.env) = (stored argv envp).map (·.env) → envp' = envp) := by
  have hargs : ∀ {argv' envp' : List Str}, argv'.length < maxArgs → envp'.length < maxArgs →
      ((storedExec ctxs ctxId vars path argv' envp').map (·.args) =
        (storedExec ctxs ctxId vars path argv envp).map (·.args) ↔
          collapsed argv' = collapsed argv) ∧
      ((storedExec ctxs ctxId vars path argv' envp').map (·.env) =
        (storedExec ctxs ctxId vars path argv envp).map (·.env) ↔
          collapsed envp' = collapsed envp) := by
    intro argv' envp' hargv' henvp'
    rw [storedExec_eq hctx vars path hargv henvp, storedExec_eq hctx vars path hargv' henvp']
    simp
  refine ⟨?_, ?_, fun argv' envp' hargv' henvp' hunbroken => ?_⟩
  · rw [← determined_iff]
    exact forall₂_congr fun argv' hargv' => by rw [(hargs hargv' henvp).1]
  · rw [← determined_iff]
    exact forall₂_congr fun envp' henvp' => by rw [(hargs hargv henvp').2]
  · simp only [forall_mem_cons] at hunbroken
    obtain ⟨hb, hb', he, he', -⟩ := hunbroken
    rw [(hargs hargv' henvp').1, (hargs hargv' henvp').2]
    exact ⟨collapsed_injective hb' hb, collapsed_injective he' he⟩

def tsiOnly : CtxMap := fun _ => some .default

/-- A quote before a space does no harm by itself. -/
theorem exec_determined_iff_quote :
    Determined ["a\" b".toList] ∧ ∀ argv : List Str, argv.length < maxArgs →
      (storedExec tsiOnly 0 [] ['x'] argv []).map (·.args) =
        (storedExec tsiOnly 0 [] ['x'] ["a\" b".toList] []).map (·.args) →
      argv = ["a\" b".toList] :=
  have hdetermined : Determined ["a\" b".toList] := ⟨le_rfl, by decide⟩
  ⟨hdetermined, (exec_determined_iff (rfl : tsiOnly 0 = _) [] ['x'] (by decide)
    (by decide)).1.mpr hdetermined⟩

/-- Two strings, and one that has the quotes and the space between them. -/
theorem collapsed_alike :
    ((krunSetExec tsiOnly 0 (some ['x']) (some [some ['a'], some ['b']]) (some []) []).2 0).map
        (·.args) =
      ((krunSetExec tsiOnly 0 (some ['x']) (some [some "a\" \"b".toList]) (some []) []).2 0).map
        (·.args) := by
  decide

/-! ## Port maps -/

def pushDigit (n : ℕ) (c : Char) : Option ℕ :=
  if c.isDigit ∧ n * 10 + (c.toNat - 48) < 2 ^ 16 then some (n * 10 + (c.toNat - 48)) else none

/-- `u16::from_str`. -/
def parseU16 (s : Str) : Option U16 :=
  let digits := if s.head? = some '+' then s.tail else s
  if digits = [] then none else (digits.foldlM pushDigit 0).map (BitVec.ofNat 16)

/-- The ports of the host and of the guest. -/
def portTuple (s : Str) : Option (U16 × U16) :=
  match s.splitOn ':' with
  | [host, guest] => do
    let hostPort ← parseU16 host
    let guestPort ← parseU16 guest
    some (hostPort, guestPort)
  | _ => none

/-- The loop of `krun_set_port_map`, with the map as the list of its entries. -/
def readPortMap (portMap : List (U16 × U16)) : List CStr → Option (List (U16 × U16))
  | [] => some portMap
  | item :: items =>
    match item.bind portTuple with
    | none => none
    | some (hostPort, guestPort) =>
      if portMap.any (·.1 = guestPort) ∨ portMap.any (·.2 = hostPort) then none
      else readPortMap (portMap ++ [(guestPort, hostPort)]) items

def ContextConfig.setPortMap (cfg : ContextConfig) (portMap : List (U16 × U16)) :
    Except KrunError ContextConfig :=
  match cfg.netCfg with
  | .tsi _ => .ok { cfg with netCfg := .tsi (some portMap) }
  | .virtioNetPasst _ | .virtioNetGvproxy _ => .error .enotsup

def krunSetPortMap (ctxs : CtxMap) (ctxId : U32) (items : List CStr) :
    Except KrunError Unit × CtxMap :=
  match readPortMap [] (items.take maxArgs) with
  | none => (.error .einval, ctxs)
  | some portMap => withCtx ctxs ctxId (·.setPortMap portMap)

/-- No port of the host and no port of the guest is there twice. -/
def Distinct (ports : List (U16 × U16)) : Prop :=
  (ports.map (·.1)).Nodup ∧ (ports.map (·.2)).Nodup
  deriving Decidable

theorem readPortMap_iff {items : List CStr} {pre m : List (U16 × U16)}
    (hpre : Distinct (pre.map Prod.swap)) :
    readPortMap pre items = some m ↔ ∃ ports, items.mapM (·.bind portTuple) = some ports ∧
      Distinct (pre.map Prod.swap ++ ports) ∧ m = pre ++ ports.map Prod.swap := by
  induction items generalizing pre with
  | nil => simp [readPortMap, hpre, eq_comm]
  | cons item items ih =>
    unfold readPortMap
    cases hitem : item.bind portTuple with
    | none => simp [hitem]
    | some p =>
      obtain ⟨host, guest⟩ := p
      have hmapM : ∀ ports, (item :: items).mapM (·.bind portTuple) = some ports ↔
          ∃ ports', items.mapM (·.bind portTuple) = some ports' ∧
            ports = (host, guest) :: ports' := by
        intro ports
        simp [hitem, Option.bind_eq_some_iff, @eq_comm _ ports]
      dsimp only
      split_ifs with hused
      · refine ⟨nofun, ?_⟩
        rintro ⟨ports, hports, hdistinct, -⟩
        obtain ⟨ports', -, rfl⟩ := (hmapM ports).mp hports
        simp [Distinct, nodup_append] at hdistinct hused
        grind
      · have hnext : Distinct ((pre ++ [(guest, host)]).map Prod.swap) := by
          simp [Distinct, nodup_append] at hpre hused ⊢
          grind
        rw [ih hnext]
        simp only [hmapM]
        constructor
        · rintro ⟨ports, hports, hdistinct, rfl⟩
          exact ⟨_, ⟨ports, hports, rfl⟩, by simpa using hdistinct, by simp⟩
        · rintro ⟨_, ⟨ports, hports, rfl⟩, hdistinct, rfl⟩
          exact ⟨ports, hports, by simpa using hdistinct, by simp⟩

theorem readPortMap_nil_iff {items : List CStr} {m : List (U16 × U16)} :
    readPortMap [] items = some m ↔ ∃ ports, items.mapM (·.bind portTuple) = some ports ∧
      Distinct ports ∧ m = ports.map Prod.swap :=
  readPortMap_iff ⟨nodup_nil, nodup_nil⟩

/-- **Port maps.** For a list of at most `MAX_ARGS` strings, `krun_set_port_map` accepts exactly
those in which every string is two ports and no port of the host or the guest is there twice. The
map is then that of the ports; else nothing changes. -/
theorem port_map_iff {ctxs : CtxMap} {ctxId : U32} {cfg : ContextConfig}
    {old : Option (List (U16 × U16))} (hctx : ctxs ctxId = some cfg) (htsi : cfg.netCfg = .tsi old)
    {items : List CStr} (hlen : items.length ≤ maxArgs) :
    ((krunSetPortMap ctxs ctxId items).1 = .ok () ↔
        ∃ ports, items.mapM (·.bind portTuple) = some ports ∧ Distinct ports) ∧
      (∀ ports, items.mapM (·.bind portTuple) = some ports →
        (krunSetPortMap ctxs ctxId items).1 = .ok () → (krunSetPortMap ctxs ctxId items).2 =
          Function.update ctxs ctxId
            (some { cfg with netCfg := .tsi (some (ports.map Prod.swap)) })) ∧
      ((krunSetPortMap ctxs ctxId items).1 ≠ .ok () →
        (krunSetPortMap ctxs ctxId items).2 = ctxs) := by
  unfold krunSetPortMap
  rw [take_of_length_le hlen]
  cases hm : readPortMap [] items with
  | none =>
    refine ⟨⟨nofun, ?_⟩, nofun, fun _ => rfl⟩
    rintro ⟨ports, hports, hdistinct⟩
    cases hm.symm.trans (readPortMap_nil_iff.mpr ⟨ports, hports, hdistinct, rfl⟩)
  | some m =>
    obtain ⟨ports, hports, hdistinct, rfl⟩ := readPortMap_nil_iff.mp hm
    simp only [withCtx, hctx, ContextConfig.setPortMap, htsi]
    refine ⟨⟨fun _ => ⟨ports, hports, hdistinct⟩, fun _ => trivial⟩, fun ports' hports' _ => ?_,
      fun h => absurd rfl h⟩
    cases hports.symm.trans hports'
    rfl

theorem port_map_iff_two :
    [some "80:8080".toList, some "+443:0443".toList].length ≤ maxArgs ∧
      (krunSetPortMap tsiOnly 0 [some "80:8080".toList, some "+443:0443".toList]).1 = .ok () :=
  ⟨by decide, (port_map_iff (rfl : tsiOnly 0 = _) rfl (by decide)).1.mpr
    ⟨[(80, 8080), (443, 443)], by decide, by decide⟩⟩

def digit (d : ℕ) : Char := Char.ofNat (48 + d)

def digits (n : ℕ) : Str := [n / 1000, n / 100 % 10, n / 10 % 10, n % 10].map digit

def samePort (n : ℕ) : Str := [':'].intercalate [digits n, digits n]

theorem digit_spec : ∀ d < 10, (digit d).isDigit = true ∧ (digit d).toNat - 48 = d ∧
    digit d ≠ '+' ∧ ':' ≠ digit d := by
  decide

theorem pushDigit_digit {n d : ℕ} (hd : d < 10) (hn : n * 10 + d < 2 ^ 16) :
    pushDigit n (digit d) = some (n * 10 + d) := by
  obtain ⟨hdigit, hval, -⟩ := digit_spec d hd
  rw [pushDigit, hval, if_pos ⟨hdigit, hn⟩]

theorem portTuple_samePort {n : ℕ} (hn : n < maxArgs) :
    portTuple (samePort n) = some (BitVec.ofNat 16 n, BitVec.ofNat 16 n) := by
  unfold maxArgs at hn
  have hlt : ∀ d ∈ [n / 1000, n / 100 % 10, n / 10 % 10, n % 10], d < 10 := by
    simp only [forall_mem_cons]
    refine ⟨?_, ?_, ?_, ?_, nofun⟩ <;> omega
  have hcolon : ':' ∉ digits n := by
    intro hmem
    obtain ⟨d, hd, heq⟩ := mem_map.mp hmem
    exact (digit_spec d (hlt d hd)).2.2.2 heq.symm
  have hparse : parseU16 (digits n) = some (BitVec.ofNat 16 n) := by
    have hplus := (digit_spec (n / 1000) (by omega)).2.2.1
    simp (disch := omega) only [parseU16, digits, map_cons, map_nil, head?_cons,
      Option.some.injEq, hplus, if_false, reduceCtorEq, foldlM_cons, foldlM_nil, pushDigit_digit,
      Option.bind_eq_bind, Option.bind_some, Option.pure_def, Option.map_some]
    congr 2
    omega
  rw [portTuple, samePort, splitOn_intercalate ':' (by simp [hcolon]) (cons_ne_nil _ _)]
  simp [hparse]

def longList : List CStr := (List.range maxArgs).map (fun n => some (samePort n)) ++ [some ['x']]

theorem mapM_samePort {l : List ℕ} (hl : ∀ n ∈ l, n < maxArgs) :
    (l.map fun n => some (samePort n)).mapM (·.bind portTuple) =
      some (l.map fun n => (BitVec.ofNat 16 n, BitVec.ofNat 16 n)) := by
  induction l with
  | nil => rfl
  | cons n l ih =>
    rw [forall_mem_cons] at hl
    simp [portTuple_samePort hl.1, ih hl.2]

/-- A string after the first 4096 is not looked at. -/
theorem port_list_cut :
    (krunSetPortMap tsiOnly 0 longList).1 = .ok () ∧ longList.mapM (·.bind portTuple) = none := by
  have hmapM := mapM_samePort fun n (hn : n ∈ List.range maxArgs) => mem_range.mp hn
  constructor
  · have hdistinct : Distinct ((List.range maxArgs).map fun n =>
        (BitVec.ofNat 16 n, BitVec.ofNat 16 n)) := by
      have hnodup : ((List.range maxArgs).map (BitVec.ofNat 16)).Nodup := by
        refine nodup_range.map_on fun a ha b hb h => ?_
        rw [mem_range, maxArgs] at ha hb
        bv_omega
      simpa only [Distinct, map_map, Function.comp_def, and_self] using hnodup
    have hlen : ((List.range maxArgs).map fun n => some (samePort n)).length = maxArgs := by
      rw [length_map, length_range]
    have hread := readPortMap_nil_iff.mpr ⟨_, hmapM, hdistinct, rfl⟩
    rw [krunSetPortMap, longList, take_left' hlen, hread]
    rfl
  · rw [longList, mapM_append, hmapM]
    rfl

end Shelter.Krun
