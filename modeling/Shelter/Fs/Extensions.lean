import Shelter.Fs.Dispatch

/-!
# The extensions of a request

Behind its names, a request that creates a file may have extensions, each with a header that tells
its length and its type. `get_extensions` looks for the security context among them. It trusts the
length of the header when it splits the buffer, and it does not implement one of the types, so that
it can panic; and it accepts an extension for no security context at all. `extensions_sound_iff`
says that nothing else goes wrong.

1. `exists_extension` splits a buffer at the end of its first extension.
2. `parse_ok_iff` says which extensions hold a security context.
3. `loop_cases` says what a turn does. After a security context, every further extension is an error
   or a panic, so that two turns are all there is.
-/

open Bytes

namespace Shelter.Fs

open FsOptions List Nat

/-! ## Extensions -/

/-- An extension, whose length with the header fits in the header. -/
structure Extension where
  type : U32
  body : List Byte
  fits : 8 + body.length < 2 ^ 32

namespace Extension

variable (x : Extension)

def toBytes : List Byte :=
  le (BitVec.ofNat 32 (8 + x.body.length)) ++ (le x.type ++ x.body)

/-- Types up to `MAX_NR_SECCTX` are numbers of security contexts. -/
def IsSecCtx : Prop := x.type ≤ 31
  deriving Decidable

/-- The extension is for one security context, which is `ctx`. What follows the context in the
body is padding. -/
structure Holds (x : Extension) (ctx : SecContext) : Prop where
  type : x.type = 1
  name : 0 ∉ ctx.name
  value : 0 < ctx.secctx.length ∧ ctx.secctx.length < 2 ^ 32
  body : ∃ unused padding : List Byte, unused.length = 4 ∧
    x.body = le (BitVec.ofNat 32 ctx.secctx.length) ++ (unused ++ (ctx.name ++ 0 :: ctx.secctx)) ++
      padding

def Accepted (ctx : Option SecContext) : Prop :=
  x.type = 0 ∧ ctx = none ∨ ∃ c, ctx = some c ∧ x.Holds c

theorem length_toBytes : x.toBytes.length = 8 + x.body.length := by
  unfold toBytes
  simp only [length_append, length_le]
  omega

theorem toBytes_append_ne_nil (rest : List Byte) : x.toBytes ++ rest ≠ [] := by
  intro h
  have hlen := congrArg List.length h
  rw [length_append, x.length_toBytes, length_nil] at hlen
  omega

end Extension

variable (buf : List Byte)

def extensionSize : ℕ := (word 32 buf 0).toNat

def extensionType : U32 := word 32 buf 4

theorem extensionSize_toBytes (x : Extension) (rest : List Byte) :
    extensionSize (x.toBytes ++ rest) = 8 + x.body.length := by
  unfold extensionSize Extension.toBytes
  rw [append_assoc]
  have h := word_append (by decide) length_nil (BitVec.ofNat 32 (8 + x.body.length))
    (le x.type ++ x.body ++ rest)
  rw [nil_append] at h
  rw [h, BitVec.toNat_ofNat, mod_eq_of_lt x.fits]

theorem extensionType_toBytes (x : Extension) (rest : List Byte) :
    extensionType (x.toBytes ++ rest) = x.type := by
  unfold extensionType Extension.toBytes
  rw [append_assoc, append_assoc]
  exact word_append (by decide) (by simp) x.type _

theorem exists_extension {buf : List Byte} (h8 : 8 ≤ buf.length) (hsize : 8 ≤ extensionSize buf)
    (hle : extensionSize buf ≤ buf.length) : ∃ x : Extension, ∃ rest, buf = x.toBytes ++ rest := by
  have hlt := (word 32 buf 0).isLt
  have hbody : ((buf.drop 8).take (extensionSize buf - 8)).length = extensionSize buf - 8 := by
    rw [length_take, length_drop]
    omega
  have hfits : 8 + ((buf.drop 8).take (extensionSize buf - 8)).length = extensionSize buf := by
    omega
  refine ⟨⟨extensionType buf, (buf.drop 8).take (extensionSize buf - 8), by rw [hfits]; exact hlt⟩,
    buf.drop (extensionSize buf), ?_⟩
  have hhead : BitVec.ofNat 32 (extensionSize buf) = word 32 buf 0 := by
    unfold extensionSize
    rw [BitVec.ofNat_toNat, BitVec.setWidth_eq]
  unfold Extension.toBytes
  dsimp only
  rw [hfits, hhead, le_word (by decide) (by omega), extensionType, le_word (by decide) (by omega)]
  have hparts : buf.take (extensionSize buf) = buf.take 4 ++ ((buf.drop 4).take 4 ++
      (buf.drop 8).take (extensionSize buf - 8)) := by
    conv_lhs => rw [← Nat.add_sub_cancel' hsize, take_add, take_add (i := 4) (j := 4), append_assoc]
  rw [drop_zero, ← hparts, take_append_drop]

namespace Server

open Prog

variable {M F : Type}

/-! ## The security context -/

variable {n : ℕ} {data name rest : List Byte} {size : U32} {ctx : Option SecContext}
  {s : ServerState M F} {x : Extension}

theorem takeObject_ok (h : n ≤ data.length) (s : ServerState M F) :
    takeObject n data s = some (.ok (data.take n, data.drop n), s) := by
  unfold takeObject
  rw [if_neg (by omega), splitAt_eq]
  rfl

theorem takeObject_short (h : data.length < n) (s : ServerState M F) :
    takeObject n data s = some (.error .decodeMessage, s) := by
  unfold takeObject
  rw [if_pos h]
  rfl

theorem idxOf_nul (h : 0 ∉ name) : (name ++ 0 :: rest).idxOf 0 = name.length := by
  rw [idxOf_append, if_neg h, idxOf_cons_self, zero_add]

theorem component_nul (h : 0 ∉ name) (s : ServerState M F) :
    component (name ++ 0 :: rest) s = some (.ok (name ++ [0], rest), s) := by
  have hsplit : name ++ 0 :: rest = (name ++ [0]) ++ rest := by simp
  unfold component
  rw [if_neg (by simp), idxOf_nul h, splitAt_eq, hsplit,
    take_left' (by simp), drop_left' (by simp)]
  rfl

theorem component_all (h : 0 ∉ data) (hne : data ≠ []) (s : ServerState M F) :
    component data s = some (.ok (data, []), s) := by
  unfold component
  rw [if_neg hne, idxOf_eq_length h, splitAt_eq, take_of_length_le (by omega),
    drop_of_length_le (by omega)]
  rfl

def contextOf (size : U32) (data : List Byte) : Step M F (Option SecContext) := do
  let (name, data) ← component data
  if data.length < size.toNat then fail .decodeMessage
  else if name.idxOf 0 + 1 ≠ name.length then fail .invalidCString2
  else pure (some ⟨name.dropLast, data.take size.toNat⟩)

theorem contextOf_ok {value padding : List Byte} (hname : 0 ∉ name)
    (hvalue : value.length = size.toNat) (s : ServerState M F) :
    contextOf size (name ++ 0 :: (value ++ padding)) s = some (.ok (some ⟨name, value⟩), s) := by
  unfold contextOf
  rw [bind_ok (component_nul hname s)]
  dsimp only
  rw [if_neg (by rw [length_append]; omega), if_neg, dropLast_concat,
    take_left' hvalue]
  · rfl
  · rw [idxOf_nul hname, length_append]
    simp

theorem contextOf_inv {s' : ServerState M F} (hsize : size ≠ 0)
    (h : contextOf size data s = some (.ok ctx, s')) :
    ∃ name value padding, data = name ++ 0 :: (value ++ padding) ∧ 0 ∉ name ∧
      value.length = size.toNat ∧ ctx = some ⟨name, value⟩ := by
  have hpos : 0 < size.toNat := by bv_omega
  by_cases hmem : (0 : Byte) ∈ data
  · obtain ⟨name, rest, rfl, hname⟩ := eq_append_cons_of_mem hmem
    by_cases hlen : rest.length < size.toNat
    · unfold contextOf at h
      rw [bind_ok (component_nul hname s)] at h
      dsimp only at h
      rw [if_pos hlen] at h
      cases h
    · have hvalue : (rest.take size.toNat).length = size.toNat := by
        rw [length_take]
        omega
      have hrest := (take_append_drop size.toNat rest).symm
      have hok : contextOf size (name ++ 0 :: (rest.take size.toNat ++ rest.drop size.toNat)) s =
        some (.ok (some ⟨name, rest.take size.toNat⟩), s) := contextOf_ok hname hvalue s
      rw [← hrest, h] at hok
      refine ⟨name, rest.take size.toNat, rest.drop size.toNat, by rw [← hrest], hname, hvalue, ?_⟩
      cases hok
      rfl
  · by_cases hne : data = []
    · subst hne
      cases h
    · -- the whole of the data is the name
      unfold contextOf at h
      rw [bind_ok (component_all hmem hne s)] at h
      dsimp only at h
      rw [if_pos (by simpa using hpos)] at h
      cases h

theorem parseSecurityContext_one (data : List Byte) :
    (parseSecurityContext 1 data : Step M F _) = (do
      let (secctx, data) ← takeObject 8 data
      if word 32 secctx 0 = 0 then fail .decodeMessage else contextOf (word 32 secctx 0) data) := by
  rfl

theorem parse_ok_iff :
    parseSecurityContext x.type x.body s = some (.ok ctx, s) ↔ x.Accepted ctx := by
  constructor
  · intro h
    by_cases h1 : 1 < x.type
    · unfold parseSecurityContext at h
      rw [if_pos h1] at h
      cases h
    by_cases h0 : x.type = 0
    · rw [h0] at h
      cases h
      exact .inl ⟨h0, rfl⟩
    have hone : x.type = 1 := by bv_omega
    rw [hone, parseSecurityContext_one] at h
    by_cases h8 : x.body.length < 8
    · cases (bind_error (takeObject_short h8 s)).symm.trans h
    have hlen : (x.body.take 8).length = 8 := by
      rw [length_take]
      omega
    rw [bind_ok (takeObject_ok (by omega) s)] at h
    dsimp only at h
    split_ifs at h with hz
    · cases h
    obtain ⟨name, value, padding, hdata, hname, hvalue, rfl⟩ := contextOf_inv hz h
    refine .inr ⟨_, rfl, hone, hname, ⟨?_, ?_⟩, (x.body.take 8).drop 4, padding, ?_, ?_⟩
    · show 0 < value.length
      bv_omega
    · show value.length < _
      omega
    · rw [length_drop]
      omega
    · show x.body = le (BitVec.ofNat 32 value.length) ++ _ ++ padding
      have hword : BitVec.ofNat 32 value.length = word 32 (x.body.take 8) 0 := by
        rw [hvalue, BitVec.ofNat_toNat, BitVec.setWidth_eq]
      rw [hword, le_word (by decide) (by omega), drop_zero]
      calc x.body = x.body.take 8 ++ (name ++ 0 :: (value ++ padding)) := by
            rw [← hdata, take_append_drop]
        _ = (x.body.take 8).take 4 ++ (x.body.take 8).drop 4 ++
            (name ++ 0 :: (value ++ padding)) := by rw [take_append_drop]
        _ = _ := by simp only [append_assoc, cons_append]
  · rintro (⟨h0, rfl⟩ | ⟨c, rfl, hone, hname, ⟨hpos, hlt⟩, unused, padding, hunused, hbody⟩)
    · rw [h0]
      rfl
    · have hsplit : x.body = (le (BitVec.ofNat 32 c.secctx.length) ++ unused) ++
          (c.name ++ 0 :: (c.secctx ++ padding)) := by
        rw [hbody]
        simp
      have hhead : (le (BitVec.ofNat 32 c.secctx.length) ++ unused).length = 8 := by
        simp [hunused]
      have hword : word 32 (le (BitVec.ofNat 32 c.secctx.length) ++ unused) 0 =
          BitVec.ofNat 32 c.secctx.length := word_append (by decide) length_nil _ unused
      have hsize : (BitVec.ofNat 32 c.secctx.length).toNat = c.secctx.length := mod_eq_of_lt hlt
      have hnz : BitVec.ofNat 32 c.secctx.length ≠ 0 := by
        intro hzero
        rw [hzero] at hsize
        exact absurd hsize.symm (ne_of_gt hpos)
      rw [hone, parseSecurityContext_one, hsplit,
        bind_ok (takeObject_ok (by rw [length_append]; omega) s)]
      dsimp only
      rw [take_left' hhead, drop_left' hhead, hword, if_neg hnz]
      exact contextOf_ok hname hsize.symm s

/-! ## The loop -/

/-- The header at the front tells a length beyond the end, or a type that is not implemented. -/
def Overruns : Prop :=
  8 ≤ buf.length ∧ 8 ≤ extensionSize buf ∧
    (buf.length < extensionSize buf ∨ extensionType buf = 32)
  deriving Decidable

theorem not_overruns_nil : ¬ Overruns [] := by decide

theorem word_take {w off : ℕ} (h : off + w / 8 ≤ n) (bs : List Byte) :
    word w (bs.take n) off = word w bs off := by
  unfold word
  rw [drop_take, take_take, min_eq_left (by omega)]

theorem buffer_cases :
    buf = [] ∨ (buf ≠ [] ∧ (buf.length < 8 ∨ extensionSize buf < 8)) ∨
      (8 ≤ buf.length ∧ 8 ≤ extensionSize buf ∧ buf.length < extensionSize buf) ∨
      ∃ x : Extension, ∃ rest, buf = x.toBytes ++ rest := by
  by_cases hnil : buf = []
  · exact .inl hnil
  by_cases h8 : buf.length < 8
  · exact .inr (.inl ⟨hnil, .inl h8⟩)
  by_cases hsize : extensionSize buf < 8
  · exact .inr (.inl ⟨hnil, .inr hsize⟩)
  by_cases hlt : buf.length < extensionSize buf
  · exact .inr (.inr (.inl ⟨by omega, by omega, hlt⟩))
  · exact .inr (.inr (.inr (exists_extension (by omega) (by omega) (by omega))))

section Turn

variable (options : U64) {found : Option SecContext × Bool} {buf : List Byte}

theorem loop_nil (turns : ℕ) (s : ServerState M F) :
    extensionsLoop options turns [] found s = some (.ok found, s) := by
  cases turns <;> rfl

theorem loop_broken (hnil : buf ≠ []) (h : buf.length < 8 ∨ extensionSize buf < 8) (turns : ℕ)
    (s : ServerState M F) :
    ∃ e, extensionsLoop options (turns + 1) buf found s = some (.error e, s) := by
  unfold extensionsLoop
  rw [if_neg hnil]
  by_cases h8 : buf.length < 8
  · exact ⟨_, bind_error (takeObject_short h8 s)⟩
  · have hsize : (word 32 (buf.take 8) 0).toNat < 8 := by
      rw [word_take (by decide)]
      exact h.resolve_left h8
    rw [bind_ok (takeObject_ok (by omega) s)]
    dsimp only
    rw [if_pos hsize]
    exact ⟨_, rfl⟩

theorem loop_beyond (h8 : 8 ≤ buf.length) (hsize : 8 ≤ extensionSize buf)
    (hlt : buf.length < extensionSize buf) (turns : ℕ) (s : ServerState M F) :
    extensionsLoop options (turns + 1) buf found s = none := by
  have hnil : buf ≠ [] := by
    rintro rfl
    exact absurd h8 (by decide)
  have hword : word 32 (buf.take 8) 0 = word 32 buf 0 := word_take (by decide) buf
  unfold extensionSize at hsize hlt
  unfold extensionsLoop
  rw [if_neg hnil, bind_ok (takeObject_ok h8 s)]
  dsimp only
  rw [hword, if_neg (by omega), if_pos (by rw [length_drop]; omega)]
  rfl

theorem loop_extension (x : Extension) (rest : List Byte) (turns : ℕ) (s : ServerState M F) :
    (extensionsLoop options (turns + 1) (x.toBytes ++ rest) found : Step M F _) s =
      (if x.IsSecCtx then
        if has options securityCtx = false ∨ found.2 = true then
          fail FsError.decodeMessage
        else do
          let secctx ← parseSecurityContext x.type x.body
          extensionsLoop options turns rest (secctx, true)
      else if x.type = 32 then Prog.panic
      else fail FsError.decodeMessage : Step M F (Option SecContext × Bool)) s := by
  have hlen := x.length_toBytes
  have hnil := x.toBytes_append_ne_nil rest
  have hsize : (word 32 ((x.toBytes ++ rest).take 8) 0).toNat = 8 + x.body.length :=
    extensionSize_toBytes x rest
  have htype : word 32 ((x.toBytes ++ rest).take 8) 4 = x.type := extensionType_toBytes x rest
  have hdrop : (x.toBytes ++ rest).drop 8 = x.body ++ rest := by
    have hsplit : x.toBytes ++ rest =
        (le (BitVec.ofNat 32 (8 + x.body.length)) ++ le x.type) ++ (x.body ++ rest) := by
      simp [Extension.toBytes]
    rw [hsplit, drop_left' (by simp)]
  rw [extensionsLoop, if_neg hnil, bind_ok (takeObject_ok (by rw [length_append]; omega) s)]
  dsimp only
  rw [hsize, htype, hdrop, if_neg (by omega), Nat.add_sub_cancel_left,
    if_neg (by rw [length_append]; omega), take_left, drop_left]
  rfl

theorem overruns_extension : Overruns (x.toBytes ++ rest) ↔ x.type = 32 := by
  have hlen := x.length_toBytes
  unfold Overruns
  rw [extensionSize_toBytes, extensionType_toBytes, length_append]
  constructor
  · rintro ⟨_, _, h | h⟩
    · omega
    · exact h
  · intro h
    exact ⟨by omega, by omega, .inr h⟩

end Turn

variable (options : U64)

def TakesSecctx : Prop := has options securityCtx = true
  deriving Decidable

/-- A panic waits at the front of the buffer, or behind an extension that is accepted. -/
def Overrun (buf : List Byte) : Prop :=
  Overruns buf ∨ TakesSecctx options ∧
    ∃ x : Extension, ∃ rest ctx, buf = x.toBytes ++ rest ∧ x.Accepted ctx ∧ Overruns rest

theorem isSecCtx_of_accepted (h : x.Accepted ctx) : x.IsSecCtx := by
  unfold Extension.IsSecCtx
  rcases h with ⟨h0, _⟩ | ⟨c, _, h⟩
  · rw [h0]; decide
  · rw [h.type]; decide

theorem loop_accepted {options : U64} (hopt : TakesSecctx options) (h : x.Accepted ctx)
    (rest : List Byte) (turns : ℕ) (s : ServerState M F) : extensionsLoop options (turns + 1)
    (x.toBytes ++ rest) (none, false) s = extensionsLoop options turns rest (ctx, true) s := by
  rw [loop_extension, if_pos (isSecCtx_of_accepted h), if_neg (by simp [show _ = true from hopt])]
  exact bind_ok (parse_ok_iff.mpr h)

theorem loop_cases {buf : List Byte} {turns : ℕ} (hturns : buf.length ≤ turns)
    (found : Option SecContext × Bool) (s : ServerState M F) :
    (buf = [] ∧ extensionsLoop options turns buf found s = some (.ok found, s)) ∨
    (Overruns buf ∧ extensionsLoop options turns buf found s = none) ∨
    (buf ≠ [] ∧ ¬ Overruns buf ∧
      ∃ e, extensionsLoop options turns buf found s = some (.error e, s)) ∨
    (¬ Overruns buf ∧ found.2 = false ∧ TakesSecctx options ∧ ∃ x : Extension, ∃ rest ctx,
      buf = x.toBytes ++ rest ∧ x.Accepted ctx ∧ rest.length ≤ turns - 1 ∧
        extensionsLoop options turns buf found s =
          extensionsLoop options (turns - 1) rest (ctx, true) s) := by
  by_cases hnil : buf = []
  · exact .inl ⟨hnil, by rw [hnil, loop_nil]⟩
  have hpos := length_pos_iff.mpr hnil
  obtain ⟨turns, rfl⟩ := exists_eq_add_one_of_ne_zero (show turns ≠ 0 by omega)
  rcases buffer_cases buf with rfl | ⟨_, hbroken⟩ | ⟨h8, hsize, hlt⟩ | ⟨x, rest, rfl⟩
  · exact absurd rfl hnil
  · refine .inr (.inr (.inl ⟨hnil, ?_, loop_broken options hnil hbroken turns s⟩))
    rintro ⟨h8, hsize, _⟩
    omega
  · exact .inr (.inl ⟨⟨h8, hsize, .inl hlt⟩, loop_beyond options h8 hsize hlt turns s⟩)
  rw [length_append, x.length_toBytes] at hturns
  rw [loop_extension, overruns_extension]
  by_cases hsec : x.IsSecCtx
  · have h32 : ¬ x.type = 32 := by
      unfold Extension.IsSecCtx at hsec
      bv_omega
    rw [if_pos hsec]
    by_cases hskip : has options securityCtx = false ∨ found.2 = true
    · rw [if_pos hskip]
      exact .inr (.inr (.inl ⟨hnil, h32, _, rfl⟩))
    · obtain ⟨r, hparse⟩ := reads_parseSecurityContext x.type x.body s
      rw [if_neg hskip]
      rcases r with e | ctx
      · rw [bind_error hparse]
        exact .inr (.inr (.inl ⟨hnil, h32, e, rfl⟩))
      · rw [not_or, Bool.not_eq_false, Bool.not_eq_true] at hskip
        exact .inr (.inr (.inr ⟨h32, hskip.2, hskip.1, x, rest, ctx, rfl,
          parse_ok_iff.mp hparse, by omega, bind_ok hparse⟩))
  · rw [if_neg hsec]
    split_ifs with h32
    · exact .inr (.inl ⟨h32, rfl⟩)
    · exact .inr (.inr (.inl ⟨hnil, h32, _, rfl⟩))

section Loop

variable {options : U64} {buf : List Byte} {turns : ℕ} {s : ServerState M F}
  (hturns : buf.length ≤ turns)
include hturns

theorem loop_overruns (hover : Overruns buf) (found : Option SecContext × Bool) :
    extensionsLoop options turns buf found s = none := by
  rcases loop_cases options hturns found s with ⟨rfl, _⟩ | ⟨_, he⟩ | ⟨_, hno, _⟩ | ⟨hno, _⟩
  · exact absurd hover not_overruns_nil
  · exact he
  all_goals exact absurd hover hno

theorem loop_none_iff :
    extensionsLoop options turns buf (none, false) s = none ↔ Overrun options buf := by
  constructor
  · intro h
    rcases loop_cases options hturns (none, false) s with ⟨_, he⟩ | ⟨hover, _⟩ | ⟨_, _, e, he⟩ |
        ⟨_, _, hopt, x, rest, ctx, rfl, hacc, hrest, he⟩
    · cases he.symm.trans h
    · exact .inl hover
    · cases he.symm.trans h
    · rcases loop_cases options hrest (ctx, true) s with ⟨_, he'⟩ | ⟨hover, _⟩ | ⟨_, _, e, he'⟩ |
          ⟨_, hfalse, _⟩
      · cases he'.symm.trans (he.symm.trans h)
      · exact .inr ⟨hopt, x, rest, ctx, rfl, hacc, hover⟩
      · cases he'.symm.trans (he.symm.trans h)
      · cases hfalse
  · rintro (hover | ⟨hopt, x, rest, ctx, rfl, hacc, hover⟩)
    · exact loop_overruns hturns hover _
    · rw [length_append, x.length_toBytes] at hturns
      obtain ⟨n, rfl⟩ := exists_eq_add_one_of_ne_zero (show turns ≠ 0 by omega)
      rw [loop_accepted hopt hacc]
      exact loop_overruns (by omega) hover _

theorem loop_ok_cases {r : Option SecContext × Bool} {s' : ServerState M F}
    (h : extensionsLoop options turns buf (none, false) s = some (.ok r, s')) :
    (buf = [] ∧ r = (none, false)) ∨
      ∃ x : Extension, ∃ ctx, buf = x.toBytes ∧ x.Accepted ctx ∧ r = (ctx, true) := by
  rcases loop_cases options hturns (none, false) s with ⟨hnil, he⟩ | ⟨_, he⟩ | ⟨_, _, e, he⟩ |
      ⟨_, _, _, x, rest, ctx, rfl, hacc, hrest, he⟩
  · cases he.symm.trans h
    exact .inl ⟨hnil, rfl⟩
  · cases he.symm.trans h
  · cases he.symm.trans h
  · rcases loop_cases options hrest (ctx, true) s with ⟨rfl, he'⟩ | ⟨_, he'⟩ | ⟨_, _, e, he'⟩ |
        ⟨_, hfalse, _⟩
    · cases he'.symm.trans (he.symm.trans h)
      exact .inr ⟨x, ctx, append_nil _, hacc, rfl⟩
    · cases he'.symm.trans (he.symm.trans h)
    · cases he'.symm.trans (he.symm.trans h)
    · cases hfalse

end Loop

/-! ## The extensions -/

/-- The call returns; and with security contexts agreed on, a result means that the bytes behind
the names are whole extensions, one of which is for security contexts: it holds the context that is
returned. -/
def ExtensionsSound (skip : ℕ) (buf : List Byte) (s : ServerState M F) : Prop :=
  ∃ r, getExtensions options skip buf s = some (r, s) ∧
    ∀ ext, r = .ok ext → TakesSecctx options →
      skip ≤ buf.length ∧ ∃ exts : List Extension, ∃ x ctx,
        buf.drop skip = exts.flatMap Extension.toBytes ∧
        exts.filter (fun x => x.IsSecCtx) = [x] ∧ x.Holds ctx ∧ ext.secctx = some ctx

/-- No extension is looked for, or no panic waits among them and they are not just one for no
security context. -/
def Orderly (skip : ℕ) (buf : List Byte) : Prop :=
  NoExtensions options ∨ buf.length < skip ∨
    ¬ Overrun options (buf.drop skip) ∧
      ¬ (TakesSecctx options ∧ ∃ x : Extension, buf.drop skip = x.toBytes ∧ x.type = 0)

section Sound

variable {options : U64} {skip : ℕ} {buf : List Byte} {s : ServerState M F}

theorem getExtensions_loop (hopt : ¬ NoExtensions options) (hskip : skip ≤ buf.length) :
    (getExtensions options skip buf : Step M F _) =
      (do
        let found ← extensionsLoop options buf.length (buf.drop skip) (none, false)
        if TakesSecctx options ∧ found.2 = false then fail FsError.missingExtension
        else pure ⟨found.1⟩) :=
  (if_neg hopt).trans (if_neg (not_lt.mpr hskip))

/-- The sound results: an error, or the context of the only extension there is. -/
theorem sound_of_orderly (h : Orderly options skip buf) : ExtensionsSound options skip buf s := by
  by_cases hopt : NoExtensions options
  · rw [ExtensionsSound, getExtensions_none hopt]
    refine ⟨_, rfl, ?_⟩
    intro ext _ htakes
    cases htakes.symm.trans hopt.1
  by_cases hskip : buf.length < skip
  · have hfail : (getExtensions options skip buf : Step M F _) = fail .decodeMessage :=
      (if_neg hopt).trans (if_pos hskip)
    rw [ExtensionsSound, hfail]
    exact ⟨_, rfl, nofun⟩
  obtain ⟨hover, hempty⟩ := (h.resolve_left hopt).resolve_left hskip
  have hturns : (buf.drop skip).length ≤ buf.length := by
    rw [length_drop]
    omega
  rw [ExtensionsSound, getExtensions_loop hopt (by omega)]
  rcases peeks_extensionsLoop options buf.length (buf.drop skip) (none, false) s with
    hnone | ⟨r, hr⟩
  · exact absurd ((loop_none_iff hturns).mp hnone) hover
  rcases r with e | found
  · exact ⟨.error e, bind_error hr, nofun⟩
  rw [bind_ok hr]
  rcases loop_ok_cases hturns hr with ⟨_, rfl⟩ | ⟨x, ctx, hbuf, hacc, rfl⟩
  · -- nothing was received
    by_cases htakes : TakesSecctx options
    · rw [if_pos ⟨htakes, rfl⟩]
      exact ⟨_, rfl, nofun⟩
    · rw [if_neg (fun hand => htakes hand.1)]
      exact ⟨_, rfl, fun ext _ hand => absurd hand htakes⟩
  · rw [if_neg (fun hand => Bool.noConfusion hand.2)]
    refine ⟨_, rfl, ?_⟩
    intro ext hext htakes
    cases hext
    have hsec := isSecCtx_of_accepted hacc
    rcases hacc with ⟨h0, _⟩ | ⟨c, rfl, hholds⟩
    · exact absurd ⟨htakes, x, hbuf, h0⟩ hempty
    · exact ⟨by omega, [x], x, c, by simpa using hbuf, by simp [hsec], hholds, rfl⟩

theorem orderly_of_sound (h : ExtensionsSound options skip buf s) : Orderly options skip buf := by
  obtain ⟨r, hr, hsound⟩ := h
  by_cases hopt : NoExtensions options
  · exact .inl hopt
  by_cases hskip : buf.length < skip
  · exact .inr (.inl hskip)
  have hturns : (buf.drop skip).length ≤ buf.length := by
    rw [length_drop]
    omega
  rw [getExtensions_loop hopt (by omega)] at hr
  refine .inr (.inr ⟨?_, ?_⟩)
  · intro hover
    cases (bind_none ((loop_none_iff hturns).mpr hover)).symm.trans hr
  · rintro ⟨htakes, x, hbuf, h0⟩
    have hlen : 0 < buf.length := by
      have hx := congrArg List.length hbuf
      rw [x.length_toBytes, length_drop] at hx
      omega
    obtain ⟨n, hn⟩ := exists_eq_add_one_of_ne_zero (show buf.length ≠ 0 by omega)
    have hloop := loop_accepted htakes (.inl ⟨h0, rfl⟩ : x.Accepted none) [] n s
    rw [append_nil, loop_nil, ← hbuf, ← hn] at hloop
    rw [bind_ok hloop, if_neg (fun hand => Bool.noConfusion hand.2)] at hr
    cases hr
    obtain ⟨_, _, _, _, _, _, _, ⟨⟩⟩ := hsound _ rfl htakes

end Sound

theorem extensions_sound_iff (options : U64) (skip : ℕ) (buf : List Byte) (s : ServerState M F) :
    ExtensionsSound options skip buf s ↔ Orderly options skip buf :=
  ⟨orderly_of_sound, sound_of_orderly⟩

/-- A server without memory and files, which agreed to security contexts. -/
def secctxServer : ServerState Unit Unit := ⟨(), securityCtx, (), []⟩

/-- The name `a`, and an extension for the context named `n` with the value `v`. -/
def secctxRequest : List Byte :=
  [97, 0, 19, 0, 0, 0, 1, 0, 0, 0, 1, 0, 0, 0, 0, 0, 0, 0, 110, 0, 118]

theorem extensions_sound_secctx :
    ExtensionsSound securityCtx 2 secctxRequest secctxServer ∧
      getExtensions securityCtx 2 secctxRequest secctxServer =
        some (.ok ⟨some ⟨[110], [118]⟩⟩, secctxServer) := by
  have hturns : (secctxRequest.drop 2).length ≤ 21 := by decide
  have hover : ¬ Overrun securityCtx (secctxRequest.drop 2) := by
    rw [← loop_none_iff (s := secctxServer) hturns]
    decide +kernel
  refine ⟨(extensions_sound_iff _ _ _ _).mpr (.inr (.inr ⟨hover, ?_⟩)), rfl⟩
  rintro ⟨_, x, hbuf, h0⟩
  have htype := extensionType_toBytes x []
  rw [append_nil, ← hbuf, h0] at htype
  exact absurd htype (by decide +kernel)

/-- An extension of 8 bytes that tells a length of 100, and one of the type that is not
implemented: two panics. -/
theorem extensions_panic :
    ¬ ExtensionsSound securityCtx 2 [97, 0, 100, 0, 0, 0, 1, 0, 0, 0] secctxServer ∧
    ¬ ExtensionsSound securityCtx 2 [97, 0, 8, 0, 0, 0, 32, 0, 0, 0] secctxServer := by
  have hpanic : ∀ {buf}, getExtensions securityCtx 2 buf secctxServer = none →
      ¬ ExtensionsSound securityCtx 2 buf secctxServer := by
    rintro buf hnone ⟨r, h, _⟩
    cases hnone.symm.trans h
  exact ⟨hpanic (by decide +kernel), hpanic (by decide +kernel)⟩

end Server

end Shelter.Fs
