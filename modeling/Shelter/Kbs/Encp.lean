import Mathlib.Data.List.DropRight
import Shelter.Lib.Hex

/-!
# The encoder and the decoder of ENCP bundles

A bundle is `ENCP`, the length of the ciphertext in eight hexadecimal digits, the ciphertext and its
tag. The encoder and the decoder are shell scripts that find the fields in different ways: the
encoder cuts the keys out with the substring expansion of `bash` and counts with `wc`, the decoder
cuts everything out with `cut` and computes positions with `bc`.

The programs that the scripts call are those of `Tools`. What they print for input that the scripts
do not give them for a proper bundle is left open, so that what is said of every input holds for any
version of them.
-/

namespace Shelter.Kbs

open Bytes Hex List Nat

/-- The programs and features of the shell that the scripts use. -/
structure Tools where
  /-- `echo -ne` -/
  echo : List Char → List Char
  /-- `xxd -p -r` -/
  unhex : List Char → List Byte
  bc : List Char → List Char
  /-- the value of an arithmetic expansion after its variables were replaced; `none` is an error -/
  arith : List Char → Option ℤ
  /-- `openssl enc -e -aes-256-cbc -nosalt`, with the initialization vector and the key -/
  encrypt : List Char → List Char → List Byte → List Byte
  /-- `openssl enc -d -aes-256-cbc -nosalt` -/
  decrypt : List Char → List Char → List Byte → List Byte
  /-- `openssl dgst -sha256 -binary -hmac`, with the key -/
  hmac : List Char → List Byte → List Byte
  /-- what `cbmkpasswd` prints -/
  cbmkpasswd : List Char

def decimal (n : ℕ) : List Char := Nat.toDigits 10 n

/-- What the scripts rely on. `echo` takes options, as in `bash` and in `busybox`; encryption pads
to whole blocks. -/
structure Tools.Lawful (t : Tools) : Prop where
  echo_plain : ∀ s, '\\' ∉ s → s.head? ≠ some '-' → t.echo s = s
  unhex_hex : ∀ s, IsHex s → s.length % 2 = 0 → t.unhex s = ofHex s
  bc_double : ∀ ds, ds.length = 8 → (∀ d ∈ ds, d < 16) →
    t.bc ("ibase=16; ".toList ++ ds.map upperDigit ++ " * 2\n".toList) =
      decimal (2 * valueOf ds) ++ ['\n']
  arith_stop : ∀ n, t.arith ("12 + ".toList ++ decimal n) = some (12 + n : ℤ)
  arith_off : ∀ n, t.arith (decimal n ++ " + 12".toList) = some (n + 12 : ℤ)
  decrypt_encrypt : ∀ iv key m, IsHex iv → iv.length = 32 → IsHex key → key.length = 64 →
    t.decrypt iv key (t.encrypt iv key m) = m
  length_encrypt : ∀ iv key m, (t.encrypt iv key m).length = 16 * (m.length / 16 + 1)
  length_hmac : ∀ key m, (t.hmac key m).length = 32

/-! ## The shell -/

/-- `$(…)` drops the newlines at the end, and null characters. -/
def substitute (out : List Char) : List Char :=
  (out.filter (· ≠ Char.ofNat 0)).rdropWhile (· = '\n')

/-- `cut -c first-last`, line by line. A range that is not one is an error. -/
def cut (first last : ℤ) (text : List Char) : List Char :=
  if 1 ≤ first ∧ first ≤ last then
    ['\n'].intercalate ((text.splitOn '\n').map fun line =>
      (line.drop (first - 1).toNat).take (last - first + 1).toNat)
  else []

def firstWord (s : List Char) : List Char :=
  (s.dropWhile Char.isWhitespace).takeWhile fun c => !c.isWhitespace

structure Output where
  stdout : List Char
  status : ℕ
  deriving DecidableEq

namespace Tools

variable (t : Tools)

/-! ## The encoder -/

def encode (input ikm : List Char) : Output :=
  if input = [] then ⟨[], 1⟩
  else if ikm = [] then ⟨[], 1⟩
  else
    let iv := ikm.take 32
    let wrapKey := (ikm.drop 32).take 64
    let hmacKey := (ikm.drop 96).take 64
    let encData := hexOf (t.encrypt iv wrapKey (t.unhex (t.echo input)))
    let len := upperNumeral 8 ((t.echo encData).length / 2)
    let tag := hexOf (t.hmac hmacKey (t.unhex (t.echo encData)))
    ⟨"ENCP".toList ++ len ++ encData ++ tag, 0⟩

/-! ## The decoder -/

/-- `substr`, with the values of `$2` and of `$(($2 + $3))`. An error in the expansion ends the
subshell. -/
def substr (str : List Char) (start : ℤ) : Option ℤ → List Char
  | some stop => substitute (cut (start + 1) stop (t.echo str))
  | none => []

variable (encp : List Char)

/-- `len`, twice the number in the bundle. -/
def len : List Char :=
  substitute (t.bc ("ibase=16; ".toList ++ t.substr encp 4 (some 12) ++ " * 2\n".toList))

def encData : List Char :=
  t.substr encp 12 (t.arith ("12 + ".toList ++ firstWord (t.len encp)))

/-- `off`; an error in the expansion ends the script. -/
def off : Option ℤ := t.arith (t.len encp ++ " + 12".toList)

def tag (off : ℤ) : List Char := t.substr encp off (some (off + 64))

/-- The bytes that the tag is checked against and that are decrypted. -/
def ciphertext : List Byte := t.unhex (t.echo (t.encData encp))

variable (ikm : List Char)

def keyMaterial : List Char :=
  if ikm = [] then substitute t.cbmkpasswd else ikm

def iv : List Char := t.substr (t.keyMaterial ikm) 0 (some 32)

def wrapKey : List Char := t.substr (t.keyMaterial ikm) 32 (some 96)

def hmacKey : List Char := t.substr (t.keyMaterial ikm) 96 (some 160)

def decode (encp ikm : List Char) : Output :=
  if encp = [] then ⟨[], 1⟩
  else if t.substr encp 0 (some 4) ≠ "ENCP".toList then ⟨[], 0⟩
  else
    match t.off encp with
    | none => ⟨[], 2⟩
    | some off =>
      let authTag := hexOf (t.hmac (t.hmacKey ikm) (t.ciphertext encp))
      if t.tag encp off ≠ authTag then ⟨[], 1⟩
      else ⟨hexOf (t.decrypt (t.iv ikm) (t.wrapKey ikm) (t.ciphertext encp)), 0⟩

end Tools

/-! ## Plain text -/

/-- Text of letters and digits, which the shell leaves as it is. -/
def Plain (s : List Char) : Prop := ∀ c ∈ s, c.isAlphanum = true

instance (s : List Char) : Decidable (Plain s) := List.decidableBAll _ s

variable {s : List Char} {n : ℕ}

theorem plain_of_isHex (h : IsHex s) : Plain s :=
  fun c hc => isAlphanum_of_digitValue (h c hc)

theorem plain_decimal (n : ℕ) : Plain (decimal n) := by
  intro c hc
  have hdigit := isDigit_of_mem_toDigits (by decide) (by decide) hc
  rw [Char.isAlphanum, hdigit, Bool.or_true]

theorem Plain.append {s' : List Char} (h : Plain s) (h' : Plain s') : Plain (s ++ s') :=
  forall_mem_append.mpr ⟨h, h'⟩

theorem Plain.take (h : Plain s) (n : ℕ) : Plain (s.take n) :=
  fun c hc => h c (mem_of_mem_take hc)

theorem Plain.drop (h : Plain s) (n : ℕ) : Plain (s.drop n) :=
  fun c hc => h c (mem_of_mem_drop hc)

theorem Plain.ne (h : Plain s) {c d : Char} (hc : c ∈ s) (hd : d.isAlphanum = false) : c ≠ d := by
  rintro rfl
  exact Bool.false_ne_true (hd.symm.trans (h c hc))

theorem substitute_plain (h : Plain s) : substitute s = s := by
  have hfilter : s.filter (· ≠ Char.ofNat 0) = s :=
    filter_eq_self.mpr fun c hc => decide_eq_true (h.ne hc (by decide))
  rw [substitute, hfilter, rdropWhile_eq_self_iff]
  intro hne
  have hlast := h.ne (getLast_mem hne) (d := '\n') (by decide)
  simpa using hlast

theorem substitute_line (h : Plain s) : substitute (s ++ ['\n']) = s := by
  have hline : (['\n'] : List Char).filter (· ≠ Char.ofNat 0) = ['\n'] := by decide
  rw [substitute, filter_append, hline, rdropWhile_concat_pos _ _ _ (by decide)]
  exact substitute_plain h

theorem cut_plain (h : Plain s) (a : ℕ) (hn : 0 < n) :
    cut (a + 1) (a + n) s = (s.drop a).take n := by
  have hlines : s.splitOn '\n' = [s] :=
    splitOn_eq_singleton fun hmem => h.ne hmem (d := '\n') (by decide) rfl
  have hrange : (1 : ℤ) ≤ a + 1 ∧ (a + 1 : ℤ) ≤ a + n := by omega
  rw [cut, if_pos hrange, hlines]
  simp

theorem take_drop_middle {a b c : List Char} {k : ℕ} (ha : a.length = n) (hb : b.length = k) :
    ((a ++ b ++ c).drop n).take k = b := by
  rw [append_assoc, drop_left' ha, take_left' hb]

theorem firstWord_plain (h : Plain s) : firstWord s = s := by
  have hword : ∀ c ∈ s, c.isWhitespace = false := by
    intro c hc
    simp [Char.isWhitespace, h.ne hc (d := ' ') (by decide), h.ne hc (d := '\t') (by decide),
      h.ne hc (d := '\r') (by decide), h.ne hc (d := '\n') (by decide)]
  have hdrop : s.dropWhile Char.isWhitespace = s := by
    rw [dropWhile_eq_self_iff]
    intro hpos
    simp [hword _ (getElem_mem hpos)]
  rw [firstWord, hdrop, takeWhile_eq_self_iff]
  intro c hc
  simp [hword c hc]

namespace Tools

variable {t : Tools} {ikm : List Char}

section Lawful

variable (ht : t.Lawful)
include ht

theorem echo_of_plain (h : Plain s) : t.echo s = s := by
  refine ht.echo_plain s (fun hmem => h.ne hmem (d := '\\') (by decide) rfl) fun hhead => ?_
  exact h.ne (mem_of_mem_head? hhead) (d := '-') (by decide) rfl

theorem substr_plain (h : Plain s) (a : ℕ) (hn : 0 < n) :
    t.substr s a (some (a + n : ℤ)) = (s.drop a).take n := by
  rw [substr, echo_of_plain ht h, cut_plain h a hn]
  exact substitute_plain ((h.drop a).take n)

theorem echo_hexOf (bs : List Byte) : t.echo (hexOf bs) = hexOf bs :=
  echo_of_plain ht (plain_of_isHex (isHex_hexOf bs))

theorem unhex_hexOf (bs : List Byte) : t.unhex (hexOf bs) = bs := by
  rw [ht.unhex_hex _ (isHex_hexOf bs) (by rw [length_hexOf]; omega), ofHex_hexOf]

/-- The decoder finds in a bundle of a ciphertext what the encoder has put there. -/
theorem fields_of_bundle (ct tag : List Byte) (hpos : 0 < ct.length) (hlen : ct.length < 2 ^ 32)
    (htag : tag.length = 32) :
    let encp := "ENCP".toList ++ upperNumeral 8 ct.length ++ hexOf ct ++ hexOf tag
    t.substr encp 0 (some 4) = "ENCP".toList ∧ t.encData encp = hexOf ct ∧
      t.off encp = some (2 * ct.length + 12 : ℤ) ∧ t.tag encp (2 * ct.length + 12) = hexOf tag := by
  intro encp
  have hmagic : Plain "ENCP".toList := by decide
  have hnumeral : (upperNumeral 8 ct.length).length = 8 := by
    rw [upperNumeral, length_map]
    exact length_paddedDigits hlen
  have hplain : Plain encp :=
    ((hmagic.append (plain_of_isHex (isHex_upperNumeral _ _))).append
      (plain_of_isHex (isHex_hexOf ct))).append (plain_of_isHex (isHex_hexOf tag))
  have hlentext : t.len encp = decimal (2 * ct.length) := by
    have hfield : t.substr encp 4 (some 12) = upperNumeral 8 ct.length := by
      refine (substr_plain ht hplain 4 (n := 8) (by decide)).trans ?_
      show (List.drop 4 ("ENCP".toList ++ upperNumeral 8 ct.length ++ hexOf ct ++ hexOf tag)).take
        8 = _
      rw [append_assoc _ (hexOf ct)]
      exact take_drop_middle rfl hnumeral
    rw [len, hfield, upperNumeral,
      ht.bc_double _ (length_paddedDigits hlen) (fun d hd => paddedDigits_lt hd),
      valueOf_paddedDigits, substitute_line (plain_decimal _)]
  refine ⟨substr_plain ht hplain 0 (n := 4) (by decide), ?_, ?_, ?_⟩
  · rw [encData, hlentext, firstWord_plain (plain_decimal _), ht.arith_stop]
    refine (substr_plain ht hplain 12 (n := 2 * ct.length) (by omega)).trans ?_
    refine take_drop_middle ?_ (length_hexOf ct)
    rw [length_append, hnumeral]
    rfl
  · rw [off, hlentext, ht.arith_off, cast_mul, cast_ofNat]
  · have hcut := substr_plain ht hplain (2 * ct.length + 12) (n := 64) (by decide)
    refine Eq.trans ?_ (hcut.trans ?_)
    · rw [Tools.tag]
      norm_cast
    · have hend : encp = "ENCP".toList ++ upperNumeral 8 ct.length ++ hexOf ct ++ hexOf tag ++ [] :=
        (append_nil _).symm
      rw [hend]
      refine take_drop_middle ?_ (by rw [length_hexOf, htag])
      rw [length_append, length_append, hnumeral, length_hexOf, add_comm]
      rfl

theorem keys_of_ikm (hikm : IsHex ikm) (hlen : 160 ≤ ikm.length) :
    t.iv ikm = ikm.take 32 ∧ t.wrapKey ikm = (ikm.drop 32).take 64 ∧
      t.hmacKey ikm = (ikm.drop 96).take 64 := by
  have hne : ikm ≠ [] := by
    rintro rfl
    cases hlen
  have hplain := plain_of_isHex hikm
  rw [iv, wrapKey, hmacKey, keyMaterial, if_neg hne]
  exact ⟨substr_plain ht hplain 0 (n := 32) (by decide),
    substr_plain ht hplain 32 (n := 64) (by decide),
    substr_plain ht hplain 96 (n := 64) (by decide)⟩

theorem decode_encode {input : List Char} (hne : input ≠ []) (hinput : IsHex input)
    (heven : input.length % 2 = 0) (hikm : IsHex ikm) (hlen : 160 ≤ ikm.length)
    (hshort : 16 * (input.length / 2 / 16 + 1) < 2 ^ 32) :
    t.decode (t.encode input ikm).stdout ikm = ⟨input.map Char.toLower, 0⟩ := by
  have hkey : ikm ≠ [] := by
    rintro rfl
    cases hlen
  obtain ⟨hiv, hwrap, hhmac⟩ := keys_of_ikm ht hikm hlen
  have hbytes : t.unhex (t.echo input) = ofHex input := by
    rw [echo_of_plain ht (plain_of_isHex hinput), ht.unhex_hex _ hinput heven]
  generalize hct : t.encrypt (ikm.take 32) ((ikm.drop 32).take 64) (ofHex input) = ct
  have hctlen : ct.length = 16 * (input.length / 2 / 16 + 1) := by
    rw [← hct, ht.length_encrypt, length_ofHex heven]
  have hencode : (t.encode input ikm).stdout = "ENCP".toList ++ upperNumeral 8 ct.length ++
      hexOf ct ++ hexOf (t.hmac ((ikm.drop 96).take 64) ct) := by
    rw [encode, if_neg hne, if_neg hkey]
    simp only [hbytes, hct, echo_hexOf ht, unhex_hexOf ht, length_hexOf]
    rw [Nat.mul_div_cancel_left _ (by decide)]
  obtain ⟨hmagic, hdata, hoff, htag⟩ := fields_of_bundle ht ct
    (t.hmac ((ikm.drop 96).take 64) ct) (by omega) (by omega) (ht.length_hmac _ _)
  rw [← hencode] at hmagic hdata hoff htag
  have hcipher : t.ciphertext (t.encode input ikm).stdout = ct := by
    rw [ciphertext, hdata, echo_hexOf ht, unhex_hexOf ht]
  have hbundle : (t.encode input ikm).stdout ≠ [] := by
    rw [hencode]
    nofun
  have hplain : t.decrypt (t.iv ikm) (t.wrapKey ikm) ct = ofHex input := by
    rw [hiv, hwrap, ← hct]
    refine ht.decrypt_encrypt _ _ _ (fun c hc => hikm c (mem_of_mem_take hc)) ?_
      (fun c hc => hikm c (mem_of_mem_drop (mem_of_mem_take hc))) ?_
    · rw [length_take]
      omega
    · rw [length_take, length_drop]
      omega
  rw [decode, if_neg hbundle, if_neg (not_not.mpr hmagic), hoff]
  simp only [hcipher, hhmac]
  rw [if_neg (not_not.mpr htag), hplain, hexOf_ofHex hinput heven]

end Lawful

/-- The decoder prints something only if the tag of the bundle is that of the bytes it decrypts. -/
theorem tag_of_decode {encp : List Char} (h : (t.decode encp ikm).stdout ≠ []) :
    ∃ off, t.off encp = some off ∧
      t.tag encp off = hexOf (t.hmac (t.hmacKey ikm) (t.ciphertext encp)) ∧
      (t.decode encp ikm).stdout =
        hexOf (t.decrypt (t.iv ikm) (t.wrapKey ikm) (t.ciphertext encp)) := by
  rw [decode] at h ⊢
  split_ifs at h ⊢ with hempty hmagic
  · exact absurd rfl h
  · exact absurd rfl h
  · split at h
    · exact absurd rfl h
    · rename_i off hoff
      rw [hoff]
      by_cases htag : t.tag encp off = hexOf (t.hmac (t.hmacKey ikm) (t.ciphertext encp))
      · exact ⟨off, rfl, htag, by rw [if_neg (not_not.mpr htag)]⟩
      · simp only [if_pos htag] at h
        exact absurd rfl h

/-- For text whose ciphertext is shorter than `2 ^ 32` bytes the decoder gives back what was
encoded; and for every bundle, what it prints was decrypted from the bytes that the tag belongs
to. -/
theorem bundle_round_trip (t : Tools) :
    (t.Lawful → ∀ input ikm, input ≠ [] → IsHex input → input.length % 2 = 0 →
      16 * (input.length / 2 / 16 + 1) < 2 ^ 32 → IsHex ikm → 160 ≤ ikm.length →
      t.decode (t.encode input ikm).stdout ikm = ⟨input.map Char.toLower, 0⟩) ∧
    ∀ encp ikm, (t.decode encp ikm).stdout ≠ [] → ∃ off, t.off encp = some off ∧
      t.tag encp off = hexOf (t.hmac (t.hmacKey ikm) (t.ciphertext encp)) ∧
      (t.decode encp ikm).stdout =
        hexOf (t.decrypt (t.iv ikm) (t.wrapKey ikm) (t.ciphertext encp)) :=
  ⟨fun ht _ _ hne hinput heven hshort hikm hlen =>
    decode_encode ht hne hinput heven hikm hlen hshort, fun _ _ => tag_of_decode⟩

/-! ## Tools that do as little as they may -/

/-- Bytes filled up to whole blocks; the bytes that are added say how many they are. -/
def pad (m : List Byte) : List Byte :=
  m ++ List.replicate (16 - m.length % 16) (BitVec.ofNat 8 (16 - m.length % 16))

def plainTools : Tools where
  echo := id
  unhex := ofHex
  bc text := decimal (2 * valueOf (((text.drop 10).take 8).map fun c => (digitValue c).getD 0)) ++
    ['\n']
  arith text :=
    some (Nat.ofDigitChars 10 (text.takeWhile (· ≠ ' ')) 0 +
      Nat.ofDigitChars 10 ((text.dropWhile (· ≠ ' ')).drop 3) 0)
  encrypt _ _ m := pad m
  decrypt _ _ c := c.take (c.length - (c.getLast?.getD 0).toNat)
  hmac _ _ := List.replicate 32 0xff
  cbmkpasswd := []

theorem plainTools_arith (m n : ℕ) :
    plainTools.arith (decimal m ++ " + ".toList ++ decimal n) = some (m + n : ℤ) := by
  have hspace : ∀ c ∈ decimal m, (decide (c ≠ ' ')) = true :=
    fun c hc => decide_eq_true ((plain_decimal m).ne hc (by decide))
  have hleft : (decimal m ++ " + ".toList ++ decimal n).takeWhile (· ≠ ' ') = decimal m := by
    rw [append_assoc, takeWhile_append_of_pos hspace]
    exact append_nil _
  have hright : ((decimal m ++ " + ".toList ++ decimal n).dropWhile (· ≠ ' ')).drop 3 =
      decimal n := by
    rw [append_assoc, dropWhile_append_of_pos hspace]
    rfl
  have hm : Nat.ofDigitChars 10 (decimal m) 0 = m :=
    ofDigitChars_toDigits (by decide) (by decide)
  have hn : Nat.ofDigitChars 10 (decimal n) 0 = n :=
    ofDigitChars_toDigits (by decide) (by decide)
  show some ((Nat.ofDigitChars 10 _ 0 : ℤ) + (Nat.ofDigitChars 10 _ 0 : ℕ)) = _
  rw [hleft, hright, hm, hn]

theorem plainTools_lawful : plainTools.Lawful where
  echo_plain _ _ _ := rfl
  unhex_hex _ _ _ := rfl
  bc_double ds hlen hds := by
    have hdigits : (((("ibase=16; ".toList ++ ds.map upperDigit ++ " * 2\n".toList).drop 10).take
        8).map fun c => (digitValue c).getD 0) = ds := by
      have hfield : (("ibase=16; ".toList ++ ds.map upperDigit ++ " * 2\n".toList).drop 10).take 8 =
          ds.map upperDigit := take_drop_middle rfl (by rw [length_map, hlen])
      rw [hfield, map_map]
      refine (map_congr_left fun d hd => ?_).trans (map_id ds)
      show (digitValue (upperDigit d)).getD 0 = d
      rw [digitValue_upperDigit (hds d hd)]
      rfl
    show decimal (2 * valueOf _) ++ _ = _
    rw [hdigits]
  arith_stop n := plainTools_arith 12 n
  arith_off n := by
    have h := plainTools_arith n 12
    rw [append_assoc] at h
    exact h
  decrypt_encrypt _ _ m _ _ _ _ := by
    have hpad : 0 < 16 - m.length % 16 ∧ 16 - m.length % 16 < 256 := by omega
    show List.take ((pad m).length - ((pad m).getLast?.getD 0).toNat) (pad m) = m
    rw [pad]
    generalize 16 - m.length % 16 = k at hpad
    have hlast : (m ++ List.replicate k (BitVec.ofNat 8 k)).getLast? = some (BitVec.ofNat 8 k) := by
      rw [List.getLast?_append, List.getLast?_replicate, if_neg (by omega)]
      rfl
    rw [hlast, Option.getD_some, BitVec.toNat_ofNat, mod_eq_of_lt hpad.2, length_append,
      length_replicate, Nat.add_sub_cancel]
    exact take_left' rfl
  length_encrypt _ _ m := by
    show (pad m).length = _
    rw [pad, length_append, length_replicate]
    omega
  length_hmac _ _ := length_replicate

theorem isHex_replicate_zero (k : ℕ) : IsHex (List.replicate k '0') := by
  intro c hc
  rw [eq_of_mem_replicate hc]
  rfl

theorem bundle_round_trip_short : let ikm := List.replicate 160 '0'
    plainTools.Lawful ∧
      plainTools.decode (plainTools.encode "00aAfF".toList ikm).stdout ikm = ⟨"00aaff".toList, 0⟩ ∧
      ∃ off, plainTools.off (plainTools.encode "00aAfF".toList ikm).stdout = some off ∧
        plainTools.tag (plainTools.encode "00aAfF".toList ikm).stdout off =
          List.replicate 64 'f' := by
  intro ikm
  have hdecode := (bundle_round_trip plainTools).1 plainTools_lawful "00aAfF".toList ikm (by decide)
    (by decide) (by decide) (by decide) (isHex_replicate_zero 160) (by rw [length_replicate])
  obtain ⟨off, hoff, htag, -⟩ := (bundle_round_trip plainTools).2
    (plainTools.encode "00aAfF".toList ikm).stdout ikm (by rw [hdecode]; decide)
  exact ⟨plainTools_lawful, hdecode, off, hoff, htag.trans (by decide)⟩

/-! ## A bundle that is too long -/

theorem ofHex_replicate_zero (k : ℕ) : ofHex (List.replicate (2 * k) '0') = List.replicate k 0 := by
  induction k with
  | zero => rfl
  | succ k ih =>
    rw [mul_succ, replicate_succ, replicate_succ, ofHex, ih, replicate_succ]
    rfl

theorem hexOf_replicate_zero (k : ℕ) : hexOf (List.replicate k 0) = List.replicate (2 * k) '0' := by
  induction k with
  | zero => rfl
  | succ k ih =>
    rw [replicate_succ, hexOf, ih, mul_succ, replicate_succ, replicate_succ]
    rfl

/-- A length of nine digits: the decoder takes the first eight, and a part of the ciphertext for the
tag. -/
theorem decode_nine_digits {t : Tools} (ht : t.Lawful) (ikm : List Char) {k : ℕ}
    (hk : 2 ^ 29 + 64 ≤ k) {rest : List Char} (hrest : IsHex rest)
    (htag : ∀ m, t.hmac (t.hmacKey ikm) m = List.replicate 32 0xff) :
    t.decode ("ENCP100000000".toList ++ List.replicate k '0' ++ rest) ikm = ⟨[], 1⟩ := by
  generalize hencp : "ENCP100000000".toList ++ List.replicate k '0' ++ rest = encp
  have hplain : Plain encp := by
    have hmagic : Plain "ENCP100000000".toList := by decide
    rw [← hencp]
    exact (hmagic.append (plain_of_isHex (isHex_replicate_zero k))).append (plain_of_isHex hrest)
  have hne : encp ≠ [] := by
    rw [← hencp]
    nofun
  have hmagic : t.substr encp 0 (some 4) = "ENCP".toList := by
    refine (substr_plain ht hplain 0 (n := 4) (by decide)).trans ?_
    rw [← hencp]
    rfl
  have hlentext : t.len encp = decimal (2 ^ 29) := by
    have hfield : t.substr encp 4 (some 12) = [1, 0, 0, 0, 0, 0, 0, 0].map upperDigit := by
      refine (substr_plain ht hplain 4 (n := 8) (by decide)).trans ?_
      rw [← hencp]
      rfl
    rw [len, hfield, ht.bc_double _ rfl (by decide), substitute_line (plain_decimal _)]
    rfl
  have hoff : t.off encp = some (2 ^ 29 + 12) := by
    rw [off, hlentext, ht.arith_off]
    rfl
  -- what stands where the decoder looks for the tag
  have hzero : (t.tag encp (2 ^ 29 + 12)).head? = some '0' := by
    have hcut : t.tag encp (2 ^ 29 + 12) = (encp.drop (2 ^ 29 + 12)).take 64 :=
      substr_plain ht hplain (2 ^ 29 + 12) (n := 64) (by decide)
    rw [hcut, List.head?_take, if_neg (by decide), List.head?_drop, ← hencp,
      List.getElem?_append_left, List.getElem?_append_right, List.getElem?_replicate, if_pos]
    · show 2 ^ 29 + 12 - 13 < k
      omega
    · show 13 ≤ 2 ^ 29 + 12
      omega
    · rw [length_append, length_replicate]
      show 2 ^ 29 + 12 < 13 + k
      omega
  rw [decode, if_neg hne, if_neg (not_not.mpr hmagic), hoff]
  refine if_pos fun heq => ?_
  rw [heq, htag] at hzero
  exact absurd hzero (by decide)

theorem encode_zeros (hikm : ikm ≠ []) (hn : 0 < n) (hmod : n % 16 = 0) :
    (plainTools.encode (List.replicate (2 * n) '0') ikm).stdout = "ENCP".toList ++
      upperNumeral 8 (n + 16) ++ List.replicate (2 * n) '0' ++
        (hexOf (List.replicate 16 16) ++ hexOf (List.replicate 32 0xff)) := by
  have hne : List.replicate (2 * n) '0' ≠ [] := by
    rw [Ne, replicate_eq_nil_iff]
    omega
  have hpad : pad (ofHex (List.replicate (2 * n) '0')) =
      List.replicate n 0 ++ List.replicate 16 16 := by
    rw [ofHex_replicate_zero, pad, length_replicate, hmod]
    rfl
  have hlen : (hexOf (List.replicate n 0 ++ List.replicate 16 16)).length / 2 = n + 16 := by
    rw [length_hexOf, length_append, length_replicate, length_replicate]
    omega
  rw [encode, if_neg hne, if_neg hikm]
  show "ENCP".toList ++ upperNumeral 8 ((hexOf (pad (ofHex (List.replicate (2 * n) '0')))).length /
    2) ++ hexOf (pad (ofHex (List.replicate (2 * n) '0'))) ++ hexOf (List.replicate 32 0xff) = _
  rw [hpad, hlen, hexOf_append, hexOf_replicate_zero, append_assoc, append_assoc,
    append_assoc, append_assoc, append_assoc]

/-- Zeros whose ciphertext has `2 ^ 32` bytes. -/
def longInput : List Char := List.replicate (2 * (2 ^ 32 - 16)) '0'

theorem long_bundle_rejected : let ikm := List.replicate 160 '0'
    (plainTools.Lawful ∧ longInput ≠ [] ∧ IsHex longInput ∧ longInput.length % 2 = 0 ∧ IsHex ikm ∧
        160 ≤ ikm.length) ∧
      plainTools.decode (plainTools.encode longInput ikm).stdout ikm = ⟨[], 1⟩ := by
  intro ikm
  have hlen : longInput.length = 2 * (2 ^ 32 - 16) := length_replicate
  have hne : longInput ≠ [] := by
    intro hnil
    rw [hnil] at hlen
    cases hlen
  refine ⟨⟨plainTools_lawful, hne, isHex_replicate_zero _, by omega, isHex_replicate_zero _,
    length_replicate.ge⟩, ?_⟩
  have hnumeral : upperNumeral 8 (2 ^ 32 - 16 + 16) = "100000000".toList := by
    decide
  have hikm : ikm ≠ [] := cons_ne_nil _ _
  rw [longInput, encode_zeros hikm (by decide) (by decide), hnumeral]
  refine decode_nine_digits plainTools_lawful ikm (by decide) ?_ fun _ => rfl
  rw [← hexOf_append]
  exact isHex_hexOf _

end Tools

end Shelter.Kbs
