import Shelter.Init.Config

/-!
# The configuration and the order of its keys

`parse_iff_inOrder`: for a configuration in which nothing but the keys is a name (`Benign`) the
result of `config_parse_file` is that of the keys and their values exactly if the keys come in an
order in which neither the early end of the loop nor the flag that an `Entrypoint` sets does harm.
-/

namespace Shelter.Init

open Found Scan List

/-! ## Keys and values -/

namespace Member

variable (data : List Char) (m : Member)

def isEnv : Bool := jsoneq data m.key "Env"

def isArgs : Bool := jsoneq data m.key "args" || jsoneq data m.key "Cmd"

def isWorkdir : Bool := jsoneq data m.key "WorkingDir"

def isEntrypoint : Bool := jsoneq data m.key "Entrypoint"

def strings : List CString := m.inner.map fun tok => unescape (tok.text data)

def IsList : Prop := m.value.size = m.inner.length ∧ ∀ tok ∈ m.inner, Proper data tok
  deriving Decidable

end Member

def argvOf (args : List CString) : Option (List CString) := if args = [] then none else some args

theorem argvOf_inj {args args' : List CString} : argvOf args = argvOf args' ↔ args = args' := by
  refine ⟨fun h => ?_, fun h => h ▸ rfl⟩
  unfold argvOf at h
  split_ifs at h with hnil hnil'
  · rw [hnil, hnil']
  · exact Option.some.inj h

/-- A member whose value is not a name and has no names in it, and is of the right kind. -/
@[mk_iff] structure Member.Ok (data : List Char) (m : Member) : Prop where
  quiet : ∀ tok ∈ m.value :: m.inner, Quiet data tok
  env : m.isEnv data = true → m.value.type = .array ∧ m.IsList data ∧
    ∀ tok ∈ m.inner, '=' ∈ tok.text data
  list : m.isArgs data = true ∨ m.isEntrypoint data = true →
    m.IsList data ∧ m.inner.length < maxArgs
  workdir : m.isWorkdir data = true → Proper data m.value ∧ m.value.start < m.value.stop

instance (data : List Char) (m : Member) : Decidable (m.Ok data) :=
  decidable_of_iff' _ (Member.ok_iff ..)

/-- A configuration in which only the keys are names, each at most once, with values of the right
kinds that fit into the tables, and with arguments if there is an entrypoint. -/
structure Benign (data : List Char) (ms : List Member) : Prop where
  laid : Laid (ms.flatMap Member.tokens)
  ok : ∀ m ∈ ms, m.Ok data
  once : (ms.filter (·.isEnv data)).length ≤ 1 ∧ (ms.filter (·.isArgs data)).length ≤ 1 ∧
    (ms.filter (·.isWorkdir data)).length ≤ 1 ∧ (ms.filter (·.isEntrypoint data)).length ≤ 1
  room : ∀ m ∈ ms, ∀ m' ∈ ms, m.isEntrypoint data = true → m'.isArgs data = true →
    m.inner.length + m'.inner.length < maxArgs
  command : ∀ m ∈ ms, m.isEntrypoint data = true → m.inner ≠ [] →
    ∃ m' ∈ ms, m'.isArgs data = true ∧ m'.inner ≠ []

namespace Found

variable (data : List Char)

def member (f : Found) (m : Member) : Found :=
  if m.isEnv data then
    if f.parsedEnv then f
    else { f with env := (m.strings data).foldl setEntry f.env, parsedEnv := true }
  else if m.isArgs data then
    if f.parsedArgs then f
    else { f with configArgv := argvOf (m.strings data), parsedArgs := true }
  else if m.isWorkdir data then
    if f.parsedWorkdir then f
    else { f with workdir := some (unescape (m.value.text data)), parsedWorkdir := true }
  else if m.isEntrypoint data then
    { f with entrypoint := argvOf (m.strings data), parsedWorkdir := true }
  else f

def members (f : Found) : List Member → Found
  | [] => f
  | m :: ms => if f.finished then f else (f.member data m).members ms

end Found

def Agrees (data data' : List Char) (toks : List Token) : Prop :=
  data'.length = data.length ∧
    ∀ tok ∈ toks, tok.type = .string → tok.text data' = tok.text data

section Members

variable {data : List Char} {m : Member} {data' : List Char} {toks rest : List Token} {f : Found}

theorem strings_eq (h : m.IsList data) : m.strings data = m.inner.map (·.text data) :=
  map_congr_left fun tok htok => unescape_eq_self (h.2 tok htok).plain.2

theorem strings_eq_nil : m.strings data = [] ↔ m.inner = [] := map_eq_nil_iff

theorem configParseArgs_list (h : m.IsList data) (hshort : m.inner.length < maxArgs)
    (hagrees : ∀ tok ∈ m.inner, tok.text data' = tok.text data) (rest : List Token) :
    configParseArgs data' m.value (m.inner ++ rest) = some (argvOf (m.strings data)) := by
  have hmap : m.inner.map (fun tok => cstr (tok.text data')) = m.strings data := by
    rw [strings_eq h]
    refine map_congr_left fun tok htok => ?_
    rw [hagrees tok htok]
    exact (h.2 tok htok).cstr_eq
  rw [configParseArgs, h.1, if_pos hshort, take_left' rfl, hmap, argvOf]
  simp only [length_eq_zero_iff, strings_eq_nil]

theorem Agrees.mono {toks' : List Token} (h : Agrees data data' toks)
    (hsub : ∀ tok ∈ toks', tok ∈ toks) : Agrees data data' toks' :=
  ⟨h.1, fun tok htok => h.2 tok (hsub tok htok)⟩

theorem Agrees.text_eq (h : Agrees data data' toks) {tok : Token} (hmem : tok ∈ toks)
    (hp : Proper data tok) : tok.text data' = tok.text data :=
  h.2 tok hmem hp.string

theorem visit_env (hok : m.Ok data) (hlaid : Laid (m.tokens ++ rest))
    (hagrees : Agrees data data' (m.tokens ++ rest)) (hkey : m.isEnv data = true)
    (hfirst : f.parsedEnv = false) :
    ∃ data'', visit ⟨data', f⟩ m.key (m.value :: (m.inner ++ rest)) =
        some ⟨data'', { f with env := (m.strings data).foldl setEntry f.env, parsedEnv := true }⟩ ∧
      Agrees data data'' rest ∧ ∀ tok ∈ m.value :: m.inner, Quiet data'' tok := by
  obtain ⟨harray, hlist, heq⟩ := hok.env hkey
  obtain ⟨hkeyLaid, hafter⟩ := pairwise_cons.mp hlaid
  obtain ⟨-, hafter⟩ := pairwise_cons.mp hafter
  obtain ⟨hinner, -, hacross⟩ := pairwise_append.mp hafter
  have hstring : m.key.type = .string := (jsoneq_iff.mp hkey).1
  have hmem : ∀ {tok : Token}, tok ∈ m.inner → tok ∈ m.tokens ++ rest := fun htok =>
    mem_append_left _ (mem_cons_of_mem _ (mem_cons_of_mem _ htok))
  have htext : ∀ tok ∈ m.inner, tok.text data' = tok.text data :=
    fun tok htok => hagrees.text_eq (hmem htok) (hlist.2 tok htok)
  have hproper : ∀ tok ∈ m.inner, Proper data' tok ∧ '=' ∈ tok.text data' := fun tok htok =>
    ⟨(hlist.2 tok htok).congr hagrees.1 (htext tok htok), by
      rw [htext tok htok]; exact heq tok htok⟩
  obtain ⟨data'', hparse, hwithin, hnul⟩ := configParseEnv_proper hinner hproper f.env
  have hkeyText : m.key.text data'' = m.key.text data := by
    rw [hwithin.text_eq fun t ht => .inl (hkeyLaid t (mem_cons_of_mem _
      (mem_append_left _ ht)) hstring (hlist.2 t ht).string)]
    exact hagrees.2 m.key mem_cons_self hstring
  have hname : ∀ name, jsoneq data'' m.key name = jsoneq data m.key name :=
    fun name => jsoneq_congr (fun _ => hkeyText) name
  have henv : jsoneq data' m.key "Env" = true :=
    (jsoneq_congr (hagrees.2 m.key mem_cons_self) "Env").trans hkey
  refine ⟨data'', ?_, ⟨hwithin.1.trans hagrees.1, fun tok htok hs => ?_⟩, fun tok htok => ?_⟩
  · have hvisit : visitEnv ⟨data', f⟩ m.key (m.value :: (m.inner ++ rest)) =
        ⟨data'', { f with env := (m.strings data).foldl setEntry f.env, parsedEnv := true }⟩ := by
      rw [visitEnv, if_pos ⟨hfirst, henv, harray⟩, hlist.1, take_left' rfl, hparse,
        strings_eq hlist, map_congr_left htext]
    rw [visit, hvisit]
    simp [visitArgs, visitWorkdir, visitEntrypoint, hname, jsoneq_false "args" hkey,
      jsoneq_false "Cmd" hkey, jsoneq_false "WorkingDir" hkey, jsoneq_false "Entrypoint" hkey]
  · rw [hwithin.text_eq fun t ht => .inr (hacross t ht tok htok (hlist.2 t ht).string hs)]
    exact hagrees.2 tok (mem_append_right _ htok) hs
  · rcases mem_cons.mp htok with rfl | htok
    · exact quiet_of_type (by rw [harray]; decide)
    · exact quiet_of_nul (hnul tok htok)

theorem visit_key (hok : m.Ok data) (hlaid : Laid (m.tokens ++ rest))
    (hagrees : Agrees data data' (m.tokens ++ rest)) :
    ∃ data'', visit ⟨data', f⟩ m.key (m.value :: (m.inner ++ rest)) =
        some ⟨data'', f.member data m⟩ ∧
      Agrees data data'' rest ∧ ∀ tok ∈ m.value :: m.inner, Quiet data'' tok := by
  have hname : ∀ name, jsoneq data' m.key name = jsoneq data m.key name :=
    jsoneq_congr (hagrees.2 m.key mem_cons_self)
  have hrest : Agrees data data' rest := hagrees.mono fun tok htok => mem_append_right _ htok
  have hquiet : ∀ tok ∈ m.value :: m.inner, Quiet data' tok := fun tok htok =>
    (hok.quiet tok htok).congr
      (hagrees.2 tok (mem_append_left _ (mem_cons_of_mem _ htok)))
  have hinner : ∀ tok ∈ m.inner, tok ∈ m.tokens ++ rest := fun tok htok =>
    mem_append_left _ (mem_cons_of_mem _ (mem_cons_of_mem _ htok))
  have hargs : m.isArgs data = true ∨ m.isEntrypoint data = true →
      configParseArgs data' m.value (m.inner ++ rest) = some (argvOf (m.strings data)) := by
    intro hlist
    obtain ⟨hlist, hshort⟩ := hok.list hlist
    exact configParseArgs_list hlist hshort
      (fun tok htok => hagrees.text_eq (hinner tok htok) (hlist.2 tok htok)) rest
  by_cases henv : jsoneq data m.key "Env" = true
  · by_cases hparsed : f.parsedEnv = true
    · refine ⟨data', ?_, hrest, hquiet⟩
      simp [visit, visitEnv, visitArgs, visitWorkdir, visitEntrypoint,
        member, Member.isEnv, hname, henv, hparsed, jsoneq_false "args" henv,
        jsoneq_false "Cmd" henv, jsoneq_false "WorkingDir" henv, jsoneq_false "Entrypoint" henv]
    · have hkey : m.isEnv data = true := henv
      obtain ⟨data'', hvisit, hafter⟩ :=
        visit_env hok hlaid hagrees henv (Bool.eq_false_iff.mpr hparsed)
      refine ⟨data'', hvisit.trans ?_, hafter⟩
      rw [member, if_pos hkey, if_neg hparsed]
  refine ⟨data', ?_, hrest, hquiet⟩
  have hnoEnv : visitEnv ⟨data', f⟩ m.key (m.value :: (m.inner ++ rest)) = ⟨data', f⟩ := by
    rw [visitEnv, if_neg fun h => henv ((hname "Env").symm.trans h.2.1)]
  rw [visit, hnoEnv]
  simp only [visitArgs, visitWorkdir, visitEntrypoint, member, Member.isEnv,
    Member.isArgs, Member.isWorkdir, Member.isEntrypoint, hname, henv]
  by_cases hargsKey : jsoneq data m.key "args" = true
  · have hlist := hargs (.inl (by rw [Member.isArgs, hargsKey]; rfl))
    cases hparsed : f.parsedArgs <;> simp [hname, hargsKey, hparsed, hlist,
      jsoneq_false "WorkingDir" hargsKey, jsoneq_false "Entrypoint" hargsKey]
  by_cases hcmd : jsoneq data m.key "Cmd" = true
  · have hlist := hargs (.inl (by rw [Member.isArgs, hcmd, Bool.or_true]))
    cases hparsed : f.parsedArgs <;> simp [hname, hargsKey, hcmd, hparsed, hlist,
      jsoneq_false "WorkingDir" hcmd, jsoneq_false "Entrypoint" hcmd]
  by_cases hwork : jsoneq data m.key "WorkingDir" = true
  · obtain ⟨hproper, hlt⟩ := hok.workdir hwork
    have htext : m.value.text data' = m.value.text data :=
      hagrees.text_eq (mem_append_left _ (mem_cons_of_mem _ mem_cons_self)) hproper
    have hparse : configParseString data' m.value = some (unescape (m.value.text data)) := by
      rw [configParseString, if_neg (by omega), htext, hproper.cstr_eq,
        unescape_eq_self hproper.plain.2]
    cases hparsed : f.parsedWorkdir <;> simp [hname, hargsKey, hcmd, hwork, hparsed, hparse,
      jsoneq_false "Entrypoint" hwork]
  by_cases hentry : jsoneq data m.key "Entrypoint" = true
  · simp [hname, hargsKey, hcmd, hwork, hentry, hargs (.inr hentry)]
  · simp [hname, hargsKey, hcmd, hwork, hentry]

theorem scan_member (hok : m.Ok data) (hlaid : Laid (m.tokens ++ rest))
    (hagrees : Agrees data data' (m.tokens ++ rest)) (hfin : f.finished ≠ true) :
    ∃ data'', Agrees data data'' rest ∧ scan ⟨data', f⟩ (m.tokens ++ rest) =
      scan ⟨data'', f.member data m⟩ rest := by
  obtain ⟨data'', hvisit, hafter, hquiet⟩ := visit_key (f := f) hok hlaid hagrees
  refine ⟨data'', hafter, ?_⟩
  have hscan : scan ⟨data', f⟩ (m.tokens ++ rest) =
      scan ⟨data'', f.member data m⟩ (m.value :: m.inner ++ rest) := by
    show scan ⟨data', f⟩ (m.key :: (m.value :: (m.inner ++ rest))) = _
    rw [scan, if_neg hfin, hvisit]
    rfl
  rw [hscan]
  exact scan_quiet (s := ⟨data'', f.member data m⟩) hquiet rest

theorem scan_members {ms : List Member} (hok : ∀ m ∈ ms, m.Ok data)
    (hlaid : Laid (ms.flatMap Member.tokens))
    (hagrees : Agrees data data' (ms.flatMap Member.tokens)) (f : Found) :
    ∃ data'', scan ⟨data', f⟩ (ms.flatMap Member.tokens) =
      some ⟨data'', f.members data ms⟩ := by
  induction ms generalizing data' f with
  | nil => exact ⟨data', rfl⟩
  | cons m ms ih =>
    rw [members]
    split_ifs with hfin
    · exact ⟨data', scan_finished hfin _⟩
    · rw [flatMap_cons] at hlaid hagrees ⊢
      obtain ⟨data'', hafter, hscan⟩ := scan_member (hok m mem_cons_self) hlaid hagrees hfin
      rw [hscan]
      exact ih (fun m' hm' => hok m' (mem_cons_of_mem _ hm'))
        (pairwise_append.mp hlaid).2.1 hafter (f.member data m)

end Members

/-! ## Which of the members count -/

/-- A value that is set by the first element with a property, and a flag that says so. -/
theorem foldl_first {S A V : Type} (step : S → A → S) (flag : S → Bool) (val : S → V)
    (p : A → Bool) (g : V → A → V) {l : List A}
    (hflag : ∀ s, ∀ a ∈ l, flag (step s a) = (flag s || p a))
    (hval : ∀ s, ∀ a ∈ l,
      val (step s a) = if flag s = false ∧ p a = true then g (val s) a else val s) (s : S) :
    flag (l.foldl step s) = (flag s || l.any p) ∧
      val (l.foldl step s) =
        if flag s = true then val s else (l.find? p).elim (val s) (g (val s)) := by
  induction l generalizing s with
  | nil => simp
  | cons a l ih =>
    obtain ⟨ihflag, ihval⟩ := ih (fun s a ha => hflag s a (mem_cons_of_mem _ ha))
      (fun s a ha => hval s a (mem_cons_of_mem _ ha)) (step s a)
    rw [foldl_cons, ihflag, ihval, hflag s a mem_cons_self, hval s a mem_cons_self]
    refine ⟨by rw [any_cons, Bool.or_assoc], ?_⟩
    cases hf : flag s with
    | true => simp
    | false =>
      cases hp : p a with
      | true | false => simp [hp]

section Order

variable {data : List Char} {m e : Member} {f : Found} {l : List Member} {A V : Type} {p : A → Bool}
  {pre : List A}

theorem isArgs_of_isEnv (h : m.isEnv data = true) :
    m.isArgs data = false ∧ m.isWorkdir data = false ∧ m.isEntrypoint data = false := by
  refine ⟨?_, jsoneq_false _ h, jsoneq_false _ h⟩
  rw [Member.isArgs, jsoneq_false _ h, jsoneq_false _ h]
  rfl

theorem isWorkdir_of_isArgs (h : m.isArgs data = true) :
    m.isWorkdir data = false ∧ m.isEntrypoint data = false := by
  rw [Member.isArgs, Bool.or_eq_true] at h
  rcases h with h | h
  all_goals exact ⟨jsoneq_false _ h, jsoneq_false _ h⟩

theorem isWorkdir_of_isEntrypoint (h : m.isEntrypoint data = true) : m.isWorkdir data = false :=
  jsoneq_false _ h

theorem member_env (f : Found) (m : Member) :
    (f.member data m).parsedEnv = (f.parsedEnv || m.isEnv data) ∧
      (f.member data m).env = if f.parsedEnv = false ∧ m.isEnv data = true then
        (m.strings data).foldl setEntry f.env else f.env := by
  unfold member
  split_ifs <;> simp_all

theorem member_args (f : Found) (m : Member) :
    (f.member data m).parsedArgs = (f.parsedArgs || m.isArgs data) ∧
      (f.member data m).configArgv = if f.parsedArgs = false ∧ m.isArgs data = true then
        argvOf (m.strings data) else f.configArgv := by
  have hargs : m.isEnv data = true → _ := isArgs_of_isEnv
  unfold member
  split_ifs <;> simp_all

theorem member_workdir (f : Found) (h : m.isEntrypoint data = false) :
    (f.member data m).parsedWorkdir = (f.parsedWorkdir || m.isWorkdir data) ∧
      (f.member data m).workdir = (if f.parsedWorkdir = false ∧ m.isWorkdir data = true then
        some (unescape (m.value.text data)) else f.workdir) ∧
      (f.member data m).entrypoint = f.entrypoint := by
  have hargs : m.isEnv data = true → _ := isArgs_of_isEnv
  have hwork : m.isArgs data = true → _ := isWorkdir_of_isArgs
  unfold member
  split_ifs <;> simp_all

theorem member_entrypoint (f : Found) (h : m.isEntrypoint data = true) :
    f.member data m = { f with entrypoint := argvOf (m.strings data), parsedWorkdir := true } := by
  have hargs : m.isEnv data = true → _ := isArgs_of_isEnv
  have hwork : m.isArgs data = true → _ := isWorkdir_of_isArgs
  unfold member
  split_ifs <;> simp_all [isWorkdir_of_isEntrypoint h]

theorem member_finished (hfin : f.finished = true) (h : m.isEntrypoint data = false) :
    f.member data m = f := by
  rw [finished, Bool.and_eq_true, Bool.and_eq_true] at hfin
  obtain ⟨⟨henv, hargs⟩, hwork⟩ := hfin
  simp [member, henv, hargs, hwork, h]

theorem foldl_finished (hfin : f.finished = true) (h : ∀ m ∈ l, m.isEntrypoint data = false) :
    l.foldl (member data) f = f := by
  refine foldlRecOn (motive := (· = f)) l _ rfl ?_
  rintro g rfl m hm
  exact member_finished hfin (h m hm)

theorem members_finished (hfin : f.finished = true) (l : List Member) : f.members data l = f := by
  cases l with
  | nil => rfl
  | cons m l => rw [members, if_pos hfin]

theorem members_append {pre : List Member} (h : ∀ m ∈ pre, m.isEntrypoint data = false)
    (f : Found) (l : List Member) :
    f.members data (pre ++ l) = (pre.foldl (member data) f).members data l := by
  induction pre generalizing f with
  | nil => rfl
  | cons m pre ih =>
    have hpre : ∀ m' ∈ pre, m'.isEntrypoint data = false :=
      fun m' hm' => h m' (mem_cons_of_mem _ hm')
    rw [cons_append, members, foldl_cons]
    by_cases hfin : f.finished = true
    · rw [if_pos hfin, member_finished hfin (h m mem_cons_self), foldl_finished hfin hpre,
        members_finished hfin]
    · rw [if_neg hfin]
      exact ih hpre (f.member data m)

/-- Without an entrypoint the early end of the loop does no harm. -/
theorem members_eq_foldl (h : ∀ m ∈ l, m.isEntrypoint data = false) (f : Found) :
    f.members data l = l.foldl (member data) f := by
  have happend := members_append h f []
  rwa [append_nil] at happend

variable (data) in
theorem foldl_env (l : List Member) (env : Environment) :
    (l.foldl (member data) (.start env)).parsedEnv = l.any (·.isEnv data) ∧
      (l.foldl (member data) (.start env)).env =
        (l.find? (·.isEnv data)).elim env fun m => (m.strings data).foldl setEntry env :=
  foldl_first (Found.member data) Found.parsedEnv Found.env (·.isEnv data)
    (fun env m => (m.strings data).foldl setEntry env) (fun f m _ => (member_env f m).1)
    (fun f m _ => (member_env f m).2) (.start env)

variable (data) in
theorem foldl_args (l : List Member) (env : Environment) :
    (l.foldl (member data) (.start env)).parsedArgs = l.any (·.isArgs data) ∧
      (l.foldl (member data) (.start env)).configArgv =
        (l.find? (·.isArgs data)).elim none fun m => argvOf (m.strings data) :=
  foldl_first (member data) parsedArgs configArgv (·.isArgs data)
    (fun _ m => argvOf (m.strings data)) (fun f m _ => (member_args f m).1)
    (fun f m _ => (member_args f m).2) (.start env)

theorem foldl_workdir (h : ∀ m ∈ l, m.isEntrypoint data = false) (f : Found) :
    (l.foldl (member data) f).parsedWorkdir = (f.parsedWorkdir || l.any (·.isWorkdir data)) ∧
      (l.foldl (member data) f).workdir = (if f.parsedWorkdir = true then f.workdir else
        (l.find? (·.isWorkdir data)).elim f.workdir fun m => some (unescape (m.value.text data))) ∧
      (l.foldl (member data) f).entrypoint = f.entrypoint := by
  obtain ⟨hflag, hval⟩ := foldl_first (member data) parsedWorkdir workdir
    (·.isWorkdir data) (fun _ m => some (unescape (m.value.text data)))
    (fun f m hm => (member_workdir f (h m hm)).1) (fun f m hm => (member_workdir f (h m hm)).2.1) f
  refine ⟨hflag, hval, foldlRecOn (motive := (entrypoint · = f.entrypoint)) l _ rfl ?_⟩
  exact fun g hg m hm => (member_workdir g (h m hm)).2.2.trans hg

/-! ## The result -/

variable (data) in
def expected (env : Environment) (ms : List Member) : Config where
  argv := argvOf ((ms.find? (·.isEntrypoint data)).elim [] (·.strings data) ++
    (ms.find? (·.isArgs data)).elim [] (·.strings data))
  workdir := (ms.find? (·.isWorkdir data)).map fun m => unescape (m.value.text data)
  env := (ms.find? (·.isEnv data)).elim env fun m => (m.strings data).foldl setEntry env

variable (data) in
/-- The working directory does not come after the entrypoint, and the entrypoint not after the
environment, the arguments and the working directory. -/
def InOrder (ms : List Member) : Prop :=
  match ms.dropWhile fun m => !m.isEntrypoint data with
  | [] => True
  | e :: post =>
    (∀ m ∈ post, m.isWorkdir data = false) ∧
      (e.inner = [] ∨ ((ms.takeWhile fun m => !m.isEntrypoint data).any (·.isEnv data) &&
        (ms.takeWhile fun m => !m.isEntrypoint data).any (·.isArgs data) &&
        (ms.takeWhile fun m => !m.isEntrypoint data).any (·.isWorkdir data)) = false)

instance (data : List Char) (ms : List Member) : Decidable (InOrder data ms) := by
  unfold InOrder
  split <;> infer_instance

theorem config_of_found (entrypoint : List CString) {args : List CString}
    (hargs : f.configArgv = argvOf args) (hentry : f.entrypoint = argvOf entrypoint)
    (h : entrypoint ≠ [] → args ≠ [] ∧ entrypoint.length + args.length < maxArgs) :
    f.config = some ⟨argvOf (entrypoint ++ args), f.workdir, f.env⟩ := by
  by_cases he : entrypoint = []
  · subst he
    rw [argvOf, if_pos rfl] at hentry
    cases ha : f.configArgv with
    | none => simp [config, ha, ← hargs]
    | some argv => simp [config, ha, hentry, ← hargs]
  · obtain ⟨hcommand, hroom⟩ := h he
    rw [argvOf, if_neg he] at hentry
    rw [argvOf, if_neg hcommand] at hargs
    have hne : entrypoint ++ args ≠ [] := fun h => he (append_eq_nil_iff.mp h).1
    rw [config, hargs, hentry]
    simp only [concatEntrypointArgv, if_pos hroom, Option.map_some, argvOf, if_neg hne]

theorem find?_of_once {l : List A} (h : (l.filter p).length ≤ 1) {a : A} (ha : a ∈ l)
    (hp : p a = true) : l.find? p = some a := by
  have hmem : a ∈ l.filter p := mem_filter.mpr ⟨ha, hp⟩
  obtain ⟨b, hb⟩ := length_eq_one_iff.mp (le_antisymm h (length_pos_of_mem hmem))
  rw [hb, mem_singleton] at hmem
  rw [← List.head?_filter, hb, hmem]
  rfl

theorem find?_append_of_any (h : pre.any p = true) (l : List A) :
    (pre ++ l).find? p = pre.find? p := by
  rw [List.find?_append]
  cases hfind : pre.find? p with
  | some a => rfl
  | none =>
    obtain ⟨a, ha, hp⟩ := any_eq_true.mp h
    exact absurd hp (List.find?_eq_none.mp hfind a ha)

theorem elim_some (o : Option A) (v : A → V) : (o.elim none fun a => some (v a)) =
    o.map v := by
  cases o with
  | none | some => rfl

theorem map_find?_eq_iff {v : A → V} {post : List A} {e : A} (he : p e = false)
    (h : ((pre ++ e :: post).filter p).length ≤ 1) :
    (pre.find? p).map v = ((pre ++ e :: post).find? p).map v ↔ ∀ a ∈ post, p a = false := by
  rw [List.find?_append, List.find?_cons_of_neg (by rw [he]; decide)]
  cases hpre : pre.find? p with
  | some a =>
    have ha := mem_of_find?_eq_some hpre
    have hp : p a = true := List.find?_some hpre
    refine ⟨fun _ b hb => ?_, fun _ => rfl⟩
    by_contra hb'
    rw [Bool.not_eq_false] at hb'
    have hlen : 1 ≤ (pre.filter p).length ∧ 1 ≤ (post.filter p).length :=
      ⟨length_pos_of_mem (mem_filter.mpr ⟨ha, hp⟩),
        length_pos_of_mem (mem_filter.mpr ⟨hb, hb'⟩)⟩
    rw [filter_append, filter_cons_of_neg (by rw [he]; decide), length_append] at h
    omega
  | none =>
    constructor
    · intro hnone b hb
      have hfind := List.find?_eq_none.mp (Option.map_eq_none_iff.mp hnone.symm) b hb
      exact Bool.not_eq_true _ |>.mp hfind
    · intro hpost
      rw [List.find?_eq_none.mpr fun b hb => by rw [hpost b hb]; decide]
      rfl

variable {env : Environment} {ms : List Member}

theorem configParseFile_eq (h : Benign data ms) {object : Token} (hobject : object.type = .object) :
    configParseFile data env (object :: ms.flatMap Member.tokens) =
      ((Found.start env).members data ms).config := by
  obtain ⟨data', hscan⟩ := scan_members h.ok h.laid ⟨rfl, fun _ _ _ => rfl⟩ (.start env)
  rw [configParseFile, if_pos hobject, hscan]
  rfl

variable (data env) in
theorem foldl_configArgv (l : List Member) :
    (l.foldl (member data) (.start env)).configArgv =
      argvOf ((l.find? (·.isArgs data)).elim [] (·.strings data)) := by
  rw [(foldl_args data l env).2]
  cases l.find? (·.isArgs data) with
  | none | some => rfl

theorem Benign.args_ne_nil (h : Benign data ms) (he : e ∈ ms)
    (hentry : e.isEntrypoint data = true) (hne : e.strings data ≠ []) :
    (ms.find? (·.isArgs data)).elim [] (·.strings data) ≠ [] := by
  obtain ⟨m, hm, hargs, hinner⟩ := h.command e he hentry fun hnil => hne (strings_eq_nil.mpr hnil)
  rw [find?_of_once h.once.2.1 hm hargs]
  exact fun hnil => hinner (strings_eq_nil.mp hnil)

theorem Benign.fits (h : Benign data ms) (he : e ∈ ms) (hentry : e.isEntrypoint data = true) :
    (e.strings data).length + ((ms.find? (·.isArgs data)).elim [] (·.strings data)).length <
      maxArgs := by
  rw [Member.strings, length_map]
  cases hfind : ms.find? (·.isArgs data) with
  | none => exact ((h.ok e he).list (.inr hentry)).2
  | some m =>
    show _ + (m.strings data).length < _
    rw [Member.strings, length_map]
    exact h.room e he m (mem_of_find?_eq_some hfind) hentry (List.find?_some hfind)

theorem config_without_entrypoint (hno : ∀ m ∈ ms, m.isEntrypoint data = false) :
    ((Found.start env).members data ms).config = some (expected data env ms) := by
  have hnone : ms.find? (·.isEntrypoint data) = none :=
    List.find?_eq_none.mpr fun m hm => by rw [hno m hm]; decide
  obtain ⟨-, hwork, hentry⟩ := foldl_workdir hno (.start env)
  rw [members_eq_foldl hno, config_of_found [] (foldl_configArgv data env ms) hentry
    (absurd rfl), hwork, (foldl_env data ms env).2, expected, hnone]
  exact congrArg (fun w => some (Config.mk _ w _)) (elim_some _ _)

section Entrypoint

variable {pre post : List Member} {e : Member} (hpre : ∀ m ∈ pre, m.isEntrypoint data = false)
include hpre

theorem foldl_start_finished (env : Environment) : (pre.foldl (member data) (.start env)).finished =
    (pre.any (·.isEnv data) && pre.any (·.isArgs data) && pre.any (·.isWorkdir data)) := by
  rw [finished, (foldl_env data pre env).1, (foldl_args data pre env).1,
    (foldl_workdir hpre (.start env)).1]
  rfl

theorem foldl_workdir_start : (pre.foldl (member data) (.start env)).workdir =
    (pre.find? (·.isWorkdir data)).map fun m => unescape (m.value.text data) :=
  (foldl_workdir hpre (.start env)).2.1.trans (elim_some _ _)

variable (h : Benign data (pre ++ e :: post)) (he : e.isEntrypoint data = true)
include h he

omit hpre in
theorem no_second_entrypoint : ∀ m ∈ post, m.isEntrypoint data = false := by
  intro m hm
  by_contra hm'
  rw [Bool.not_eq_false] at hm'
  have honce := h.once.2.2.2
  rw [filter_append, filter_cons_of_pos he, length_append, length_cons] at honce
  have hpos := length_pos_of_mem (mem_filter.mpr ⟨hm, hm'⟩)
  omega

theorem members_with_entrypoint :
    (Found.start env).members data (pre ++ e :: post) =
      if (pre.foldl (member data) (.start env)).finished = true
      then pre.foldl (member data) (.start env)
      else (pre ++ e :: post).foldl (member data) (.start env) := by
  rw [members_append hpre, members, members_eq_foldl (no_second_entrypoint h he), foldl_append,
    foldl_cons]

theorem config_stopped (hstop : (pre.foldl (member data) (.start env)).finished = true) :
    ((Found.start env).members data (pre ++ e :: post)).config =
        some (expected data env (pre ++ e :: post)) ↔ e.inner = [] := by
  rw [members_with_entrypoint hpre h he, if_pos hstop]
  simp only [foldl_start_finished hpre, Bool.and_eq_true] at hstop
  obtain ⟨⟨henv, hargs⟩, hwork⟩ := hstop
  rw [config_of_found [] (foldl_configArgv data env pre) (foldl_workdir hpre (.start env)).2.2
    (absurd rfl), foldl_workdir_start hpre, (foldl_env data pre env).2, expected,
    find?_of_once h.once.2.2.2 (by simp) he, find?_append_of_any henv, find?_append_of_any hargs,
    find?_append_of_any hwork, Option.some_inj, Config.mk.injEq, argvOf_inj, nil_append]
  simp only [Option.elim_some, and_true, self_eq_append_left, strings_eq_nil]

theorem config_complete (hgo : (pre.foldl (member data) (.start env)).finished ≠ true) :
    ((Found.start env).members data (pre ++ e :: post)).config =
        some (expected data env (pre ++ e :: post)) ↔ ∀ m ∈ post, m.isWorkdir data = false := by
  have hmem : e ∈ pre ++ e :: post := by simp
  obtain ⟨-, hwork, hentry⟩ := foldl_workdir (no_second_entrypoint h he)
    ((pre.foldl (member data) (.start env)).member data e)
  rw [← foldl_cons, ← foldl_append, member_entrypoint _ he] at hwork hentry
  rw [members_with_entrypoint hpre h he, if_neg hgo, config_of_found _ (foldl_configArgv data env _)
      hentry (fun hne => ⟨h.args_ne_nil hmem he hne, h.fits hmem he⟩), hwork, if_pos rfl,
    foldl_workdir_start hpre, (foldl_env data _ env).2, expected,
    find?_of_once h.once.2.2.2 hmem he, Option.some_inj, Config.mk.injEq,
    map_find?_eq_iff (isWorkdir_of_isEntrypoint he) h.once.2.2.1]
  simp only [Option.elim_some, and_true, true_and]

end Entrypoint

/-- For a configuration in which only the keys are names, the result is that of the keys and their
values exactly if the keys come in a good order. -/
theorem parse_iff_inOrder (h : Benign data ms) {object : Token} (hobject : object.type = .object) :
    configParseFile data env (object :: ms.flatMap Member.tokens) = some (expected data env ms) ↔
      InOrder data ms := by
  rw [configParseFile_eq h hobject, InOrder]
  have hsplit : ms.takeWhile (fun m => !m.isEntrypoint data) ++
      ms.dropWhile (fun m => !m.isEntrypoint data) = ms := takeWhile_append_dropWhile
  have hpre : ∀ m ∈ ms.takeWhile fun m => !m.isEntrypoint data, m.isEntrypoint data = false :=
    fun m hm => by simpa using mem_takeWhile_imp hm
  generalize ms.takeWhile (fun m => !m.isEntrypoint data) = pre at hsplit hpre
  cases hdrop : ms.dropWhile fun m => !m.isEntrypoint data with
  | nil =>
    rw [hdrop, append_nil] at hsplit
    subst hsplit
    exact ⟨fun _ => trivial, fun _ => config_without_entrypoint hpre⟩
  | cons e post =>
    have he : e.isEntrypoint data = true := by
      have hhead := List.head?_dropWhile_not (fun m : Member => !m.isEntrypoint data) ms
      rw [hdrop] at hhead
      simpa using hhead
    rw [hdrop] at hsplit
    subst hsplit
    show _ ↔ (∀ m ∈ post, m.isWorkdir data = false) ∧ (e.inner = [] ∨ (_ && _ && _) = false)
    rw [← foldl_start_finished hpre env]
    by_cases hgo : (pre.foldl (member data) (.start env)).finished = true
    · -- the working directory is before the entrypoint, and there is only one
      have hpost : ∀ m ∈ post, m.isWorkdir data = false := by
        rw [foldl_start_finished hpre, Bool.and_eq_true] at hgo
        refine (map_find?_eq_iff (v := id) (isWorkdir_of_isEntrypoint he) h.once.2.2.1).mp ?_
        rw [find?_append_of_any hgo.2]
      rw [config_stopped hpre h he hgo, hgo]
      exact ⟨fun hnil => ⟨hpost, .inl hnil⟩, fun hin => hin.2.resolve_right nofun⟩
    · rw [config_complete hpre h he hgo]
      simp [hgo]

end Order

/-! ## Runs -/

def parseDocument (ms : List (String × Value)) (env : Environment) : Option Config :=
  configParseFile (documentText ms) env (documentTokens ms)

def goodDocument : List (String × Value) :=
  [("Hostname", .string "box"), ("Env", .array ["HOME=/", "A=b=c"]), ("WorkingDir", .string "/srv"),
    ("Entrypoint", .array ["sh", "-c"]), ("Cmd", .array ["run"])]

theorem goodDocument_benign : Benign (documentText goodDocument) (membersAt 1 goodDocument) :=
  ⟨by decide +kernel, by decide +kernel, by decide +kernel, by decide +kernel, by decide +kernel⟩

theorem parse_iff_inOrder_good :
    Benign (documentText goodDocument) (membersAt 1 goodDocument) ∧
      ∃ c, parseDocument goodDocument (fun _ => none) = some c ∧
        c.argv = some ["sh".toList, "-c".toList, "run".toList] ∧ c.workdir = some "/srv".toList ∧
        c.env "HOME".toList = some "/".toList ∧ c.env "A".toList = some "b=c".toList := by
  have hparse : parseDocument goodDocument (fun _ => none) =
      some (expected (documentText goodDocument) (fun _ => none) (membersAt 1 goodDocument)) :=
    (parse_iff_inOrder goodDocument_benign rfl).mpr (by decide +kernel)
  exact ⟨goodDocument_benign, _, hparse, by decide +kernel, by decide +kernel, by decide +kernel,
    by decide +kernel⟩

/-- What `main` gets of a document: the arguments, the working directory and a variable. -/
def seen (ms : List (String × Value)) (name : String) :
    Option (Option (List CString) × Option CString × Option CString) :=
  (parseDocument ms fun _ => none).map fun c => (c.argv, c.workdir, c.env name.toList)

/-- Keys in a bad order, an entrypoint without arguments, a value that is a name, an entry of the
environment without `=`, an escape, and an array that does not fit. -/
theorem documents_misread :
    seen [("Entrypoint", .array ["a"]), ("WorkingDir", .string "/w"), ("Cmd", .array ["b"])] "A" =
      some (some ["a".toList, "b".toList], none, none) ∧
    seen [("Env", .array ["A=1"]), ("Cmd", .array ["b"]), ("WorkingDir", .string "/w"),
      ("Entrypoint", .array ["a"])] "A" =
        some (some ["b".toList], some "/w".toList, some "1".toList) ∧
    seen [("Entrypoint", .array ["a"])] "A" = some (none, none, none) ∧
    seen [("args", .array ["a"]), ("Cmd", .array ["b"])] "A" =
      some (some ["a".toList], none, none) ∧
    seen [("Cmd", .array ["b"]), ("args", .array ["a"])] "A" =
      some (some ["b".toList], none, none) ∧
    seen [("WorkingDir", .string "args"), ("Cmd", .array ["b"])] "A" =
      some (some ["[\"b\"]".toList], some "args".toList, none) ∧
    seen [("Env", .array ["A"]), ("Cmd", .array ["b=c"])] "A" =
      some (some ["b".toList], none, some "c\"]\x7d".toList) ∧
    seen [("Cmd", .array ["a\\tb"])] "A" = some (some ["a\\tb".toList], none, none) ∧
    seen [("Cmd", .array (List.replicate 32 "a"))] "A" = none := by
  refine ⟨?_, ?_, ?_, ?_, ?_, ?_, ?_, ?_, ?_⟩ <;> decide +kernel

end Shelter.Init
