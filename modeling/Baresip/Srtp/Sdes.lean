import Mathlib.Data.List.TakeWhile
import Baresip.Re.Base64
import Baresip.Re.Runs
import Baresip.Re.SdpSession

set_option linter.dupNamespace false

namespace Baresip.Srtp

open Re

structure Crypto where
  tag : BitVec 32
  suite : Pl
  keyMethod : Pl
  keyInfo : Pl
  lifetime : Pl
  mki : Pl
  sessPrms : Pl
  deriving DecidableEq, Repr

def Pl.within (outer pl : Pl) : Pl := ⟨outer.off + pl.off, pl.val⟩

/-- Both patterns have as many captures as are taken apart here. -/
def sdesDecodeCrypto (val : List Byte) : Except Errno Crypto := do
  let fields ← reRegex val (ascii "[0-9]+ [^ ]+ [^ ]+[]*[^]*")
  match fields with
  | [tag, suite, keyPrms, _, sessPrms] =>
    let key ← reRegex keyPrms.val (ascii "[^:]+:[^|]+[|]*[^|]*[|]*[^|]*")
    match key with
    | [keyMethod, keyInfo, _, lifetime, _, mki] =>
      .ok ⟨tag.u32, suite, Pl.within keyPrms keyMethod, Pl.within keyPrms keyInfo,
        Pl.within keyPrms lifetime, Pl.within keyPrms mki, sessPrms⟩
    | _ => .error .EINVAL
  | _ => .error .EINVAL

example : (sdesDecodeCrypto (ascii "1 AES_CM_128_HMAC_SHA1_80 inline:abcd|2^20")).toOption.map
    (fun c => (c.tag, c.suite.val, c.keyMethod.val, c.keyInfo.val, c.lifetime.val)) =
    some (1, ascii "AES_CM_128_HMAC_SHA1_80", ascii "inline", ascii "abcd", ascii "2^20") := by
  rw [ascii_ofList, ascii_ofList, ascii_ofList, ascii_ofList, ascii_ofList]
  decide

variable {δ : Type}

def sdpAttrCrypto : String := "crypto"

/-- The value is printed to a zero terminated text. -/
def sdpMediaSetLattr (m : SdpMline δ) (replace : Bool) (name : String) (value : List Byte) : SdpMline δ :=
  let kept := if replace then m.lattrl.filter fun attr => !strCaseEq (some name) (some attr.1) else m.lattrl
  { m with lattrl := kept ++ [(name, cstr value)] }

def sdesEncodeCrypto (m : SdpMline δ) (suite key : List Byte) : SdpMline δ :=
  sdpMediaSetLattr m true sdpAttrCrypto (ascii "1 " ++ suite ++ ascii " inline:" ++ key)

def lattrs (m : SdpMline δ) (name : String) : List (List Byte) :=
  (m.lattrl.filter fun attr => attr.1 == name).map (·.2)

/-- A replaced attribute is there once. -/
theorem lattrs_replaced (m : SdpMline δ) (name : String) (value : List Byte) :
    lattrs (sdpMediaSetLattr m true name value) name = [cstr value] := by
  have none_ : (m.lattrl.filter fun attr => !strCaseEq (some name) (some attr.1)).filter (·.1 == name) = [] := by
    apply List.filter_eq_nil_iff.mpr
    intro attr member
    have other := (List.mem_filter.mp member).2
    intro same
    rw [← beq_iff_eq.mp same] at other
    simp [strCaseEq] at other
  simp [lattrs, sdpMediaSetLattr, none_]

def cryptoItems : List Item :=
  [.cls false false [⟨chr '0', chr '9'⟩] 1 Regex.uint32Max, .lit (chr ' '),
    .cls true false [⟨chr ' ', chr ' '⟩] 1 Regex.uint32Max, .lit (chr ' '),
    .cls true false [⟨chr ' ', chr ' '⟩] 1 Regex.uint32Max, .cls false false [] 0 Regex.uint32Max,
    .cls true false [] 0 Regex.uint32Max]

def keyItems : List Item :=
  [.cls true false [⟨chr ':', chr ':'⟩] 1 Regex.uint32Max, .lit (chr ':'),
    .cls true false [⟨chr '|', chr '|'⟩] 1 Regex.uint32Max, .cls false false [⟨chr '|', chr '|'⟩] 0 Regex.uint32Max,
    .cls true false [⟨chr '|', chr '|'⟩] 0 Regex.uint32Max, .cls false false [⟨chr '|', chr '|'⟩] 0 Regex.uint32Max,
    .cls true false [⟨chr '|', chr '|'⟩] 0 Regex.uint32Max]

theorem crypto_parses : Regex.Parses (ascii "[0-9]+ [^ ]+ [^ ]+[]*[^]*") cryptoItems := by
  have digit : Regex.Opens (ascii "[0-9]+") false false [⟨chr '0', chr '9'⟩] 1 Regex.uint32Max :=
    .ofList fun _ _ _ _ _ _ _ _ _ => rfl
  have token : Regex.Opens (ascii "[^ ]+") true false [⟨chr ' ', chr ' '⟩] 1 Regex.uint32Max :=
    .ofList fun _ _ _ _ _ _ _ _ _ => rfl
  have nothing : Regex.Opens (ascii "[]*") false false [] 0 Regex.uint32Max := .ofList fun _ _ _ _ _ _ _ _ _ => rfl
  have rest : Regex.Opens (ascii "[^]*") true false [] 0 Regex.uint32Max := .ofList fun _ _ _ _ _ _ _ _ _ => rfl
  have plain : chr ' ' ≠ chr '\\' ∧ chr ' ' ≠ chr '[' := by decide
  exact .ofList (((((((Regex.Parses.nil.cls rest).cls nothing).cls token).lit plain).cls token).lit plain).cls digit)

theorem key_parses : Regex.Parses (ascii "[^:]+:[^|]+[|]*[^|]*[|]*[^|]*") keyItems := by
  have method : Regex.Opens (ascii "[^:]+") true false [⟨chr ':', chr ':'⟩] 1 Regex.uint32Max :=
    .ofList fun _ _ _ _ _ _ _ _ _ => rfl
  have info : Regex.Opens (ascii "[^|]+") true false [⟨chr '|', chr '|'⟩] 1 Regex.uint32Max :=
    .ofList fun _ _ _ _ _ _ _ _ _ => rfl
  have bars : Regex.Opens (ascii "[|]*") false false [⟨chr '|', chr '|'⟩] 0 Regex.uint32Max :=
    .ofList fun _ _ _ _ _ _ _ _ _ => rfl
  have field : Regex.Opens (ascii "[^|]*") true false [⟨chr '|', chr '|'⟩] 0 Regex.uint32Max :=
    .ofList fun _ _ _ _ _ _ _ _ _ => rfl
  have plain : chr ':' ≠ chr '\\' ∧ chr ':' ≠ chr '[' := by decide
  exact .ofList (((((((Regex.Parses.nil.cls field).cls bars).cls field).cls bars).cls info).lit plain).cls method)

theorem crypto_found {suite prms : List Byte} (suite_some : suite ≠ []) (suite_plain : chr ' ' ∉ suite)
    (suite_fits : suite.length ≤ Regex.uint32Max) (prms_some : prms ≠ []) (prms_plain : chr ' ' ∉ prms)
    (prms_fits : prms.length ≤ Regex.uint32Max) :
    ∃ keyPrms none_ sessPrms : Pl,
      reRegex (ascii "1 " ++ suite ++ ascii " " ++ prms) (ascii "[0-9]+ [^ ]+ [^ ]+[]*[^]*") =
        .ok [⟨0, ascii "1"⟩, ⟨2, suite⟩, keyPrms, none_, sessPrms] ∧ keyPrms.val = prms := by
  have text : ascii "1 " ++ suite ++ ascii " " ++ prms = ascii "1" ++ (chr ' ' :: (suite ++ chr ' ' :: prms)) := by
    simp [ascii, chr]
  have digit : ∀ c ∈ ascii "1", exprMatch [⟨chr '0', chr '9'⟩] (tolower c) false = true := by decide
  have blank : ∀ c ∈ (chr ' ' :: (suite ++ chr ' ' :: prms)).head?,
      exprMatch [⟨chr '0', chr '9'⟩] (tolower c) false = false := by
    rintro c ⟨⟩
    rfl
  have hit : ∃ off, matchItems cryptoItems 0 (ascii "1" ++ (chr ' ' :: (suite ++ chr ' ' :: prms))) =
      .ok [⟨0, ascii "1"⟩, ⟨2, suite⟩, ⟨off, prms⟩, ⟨off + prms.length, []⟩, ⟨off + prms.length, []⟩] := by
    rw [cryptoItems, matchItems_run (by decide) (by decide) digit blank, matchItems_lit,
      matchItems_until blank_fixed suite_fits (List.length_pos_iff.mpr suite_some) suite_plain
        (by rintro c ⟨⟩; rfl), matchItems_lit,
      matchItems_rest blank_fixed prms_fits (List.length_pos_iff.mpr prms_some) prms_plain, matchItems_end,
      matchItems_end]
    exact ⟨_, rfl⟩
  obtain ⟨off, hit⟩ := hit
  rw [text]
  refine ⟨_, _, _, (reRegexFrom_ok crypto_parses (by decide) 0 _ _).mpr ⟨[], _, rfl, ?_, hit, ?_⟩, rfl⟩
  · exact List.cons_ne_nil _ _
  · intro i before
    exact absurd before (Nat.not_lt_zero i)

theorem key_found {key : List Byte} (key_some : key ≠ []) (key_plain : chr '|' ∉ key)
    (key_fits : key.length ≤ Regex.uint32Max) :
    ∃ none_ lifetime none' mki : Pl,
      reRegex (ascii "inline:" ++ key) (ascii "[^:]+:[^|]+[|]*[^|]*[|]*[^|]*") =
        .ok [⟨0, ascii "inline"⟩, ⟨7, key⟩, none_, lifetime, none', mki] := by
  have text : ascii "inline:" ++ key = ascii "inline" ++ (chr ':' :: key) := rfl
  have hit : ∃ none_ lifetime none' mki : Pl, matchItems keyItems 0 (ascii "inline" ++ (chr ':' :: key)) =
      .ok [⟨0, ascii "inline"⟩, ⟨7, key⟩, none_, lifetime, none', mki] := by
    rw [keyItems, matchItems_until colon_fixed (by decide) (by decide) (by decide) (by rintro c ⟨⟩; rfl), matchItems_lit,
      matchItems_rest bar_fixed key_fits (List.length_pos_iff.mpr key_some) key_plain, matchItems_end, matchItems_end,
      matchItems_end, matchItems_end]
    exact ⟨_, _, _, _, rfl⟩
  obtain ⟨none_, lifetime, none', mki, hit⟩ := hit
  rw [text]
  refine ⟨none_, lifetime, none', mki, (reRegexFrom_ok key_parses (by decide) 0 _ _).mpr ⟨[], _, rfl, ?_, hit, ?_⟩⟩
  · exact List.cons_ne_nil _ _
  · intro i before
    exact absurd before (Nat.not_lt_zero i)

theorem classRun_le (neg : Bool) (chrv : List Chr) (p : List Byte) :
    (classRun neg chrv (p.take Regex.uint32Max)).length ≤ Regex.uint32Max :=
  Nat.le_trans (List.takeWhile_prefix _).length_le (List.length_take_le _ _)

/-- No field that has to be there is empty or longer than the counter of the search. -/
theorem crypto_bounds {v : List Byte} {captures : List Pl}
    (found : reRegex v (ascii "[0-9]+ [^ ]+ [^ ]+[]*[^]*") = .ok captures) :
    ∃ tag suite keyPrms none_ sessPrms : Pl, captures = [tag, suite, keyPrms, none_, sessPrms] ∧
      suite.val ≠ [] ∧ suite.val.length ≤ Regex.uint32Max ∧ keyPrms.val.length ≤ Regex.uint32Max := by
  obtain ⟨before, after, -, -, hit, -⟩ := (reRegexFrom_ok crypto_parses (by decide) 0 v captures).mp found
  obtain ⟨rest, rfl, -, hit⟩ := matchItems_many_ok hit
  obtain ⟨x, p, -, -, hit⟩ := matchItems_lit_ok hit
  obtain ⟨rest, rfl, some_, hit⟩ := matchItems_many_ok hit
  obtain ⟨x, p, -, -, hit⟩ := matchItems_lit_ok hit
  obtain ⟨rest, rfl, -, hit⟩ := matchItems_many_ok hit
  obtain ⟨rest, rfl, -, hit⟩ := matchItems_many_ok hit
  obtain ⟨rest, rfl, -, hit⟩ := matchItems_many_ok hit
  obtain rfl := Except.ok.inj hit
  exact ⟨_, _, _, _, _, rfl, List.length_pos_iff.mp some_, classRun_le _ _ _, classRun_le _ _ _⟩

theorem key_bounds {v : List Byte} {captures : List Pl}
    (found : reRegex v (ascii "[^:]+:[^|]+[|]*[^|]*[|]*[^|]*") = .ok captures) :
    ∃ keyMethod keyInfo none_ lifetime none' mki : Pl,
      captures = [keyMethod, keyInfo, none_, lifetime, none', mki] ∧ keyInfo.val ≠ [] ∧
        keyMethod.val.length + 1 + keyInfo.val.length ≤ v.length := by
  obtain ⟨before, after, whole, -, hit, -⟩ := (reRegexFrom_ok key_parses (by decide) 0 v captures).mp found
  have shorter := congrArg List.length whole
  obtain ⟨rest, rfl, -, hit⟩ := matchItems_many_ok hit
  obtain ⟨x, p, behind, -, hit⟩ := matchItems_lit_ok hit
  obtain ⟨rest, rfl, some_, hit⟩ := matchItems_many_ok hit
  obtain ⟨rest, rfl, -, hit⟩ := matchItems_many_ok hit
  obtain ⟨rest, rfl, -, hit⟩ := matchItems_many_ok hit
  obtain ⟨rest, rfl, -, hit⟩ := matchItems_many_ok hit
  obtain ⟨rest, rfl, -, hit⟩ := matchItems_many_ok hit
  obtain rfl := Except.ok.inj hit
  refine ⟨_, _, _, _, _, _, rfl, List.length_pos_iff.mp some_, ?_⟩
  have split_ := congrArg List.length behind
  have inside : (classRun true [⟨chr '|', chr '|'⟩] (p.take Regex.uint32Max)).length ≤ p.length :=
    Nat.le_trans (List.takeWhile_prefix _).length_le (List.length_take_le' _ _)
  rw [List.length_drop, List.length_cons] at split_
  rw [List.length_append] at shorter
  dsimp only
  omega

theorem sdesDecodeCrypto_bounds {v : List Byte} {c : Crypto} (decoded : sdesDecodeCrypto v = .ok c) :
    c.suite.val ≠ [] ∧ c.suite.val.length ≤ Regex.uint32Max ∧ c.keyInfo.val ≠ [] ∧
      c.keyMethod.val.length + 1 + c.keyInfo.val.length ≤ Regex.uint32Max := by
  unfold sdesDecodeCrypto at decoded
  cases found : reRegex v (ascii "[0-9]+ [^ ]+ [^ ]+[]*[^]*") with
  | error err =>
    rw [found] at decoded
    cases decoded
  | ok fields =>
    obtain ⟨tag, suite, keyPrms, none_, sessPrms, rfl, suite_some, suite_fits, prms_fits⟩ := crypto_bounds found
    rw [found] at decoded
    cases found' : reRegex keyPrms.val (ascii "[^:]+:[^|]+[|]*[^|]*[|]*[^|]*") with
    | error err =>
      simp only [bind, Except.bind, found'] at decoded
      cases decoded
    | ok key =>
      obtain ⟨keyMethod, keyInfo, none', lifetime, none'', mki, rfl, key_some, inside⟩ := key_bounds found'
      simp only [bind, Except.bind, found'] at decoded
      obtain rfl := Except.ok.inj decoded
      exact ⟨suite_some, suite_fits, key_some, Nat.le_trans inside prms_fits⟩

theorem prms_plain {key : List Byte} {b : Byte} (plain : b ∉ key) (other : b ∉ ascii "inline:") :
    b ∉ ascii "inline:" ++ key := by
  rw [List.mem_append]
  rintro (inside | inside)
  · exact other inside
  · exact plain inside

theorem written_decoded {suite key : List Byte} (suite_some : suite ≠ []) (suite_plain : chr ' ' ∉ suite)
    (suite_fits : suite.length ≤ Regex.uint32Max) (key_some : key ≠ []) (key_plain : chr ' ' ∉ key ∧ chr '|' ∉ key)
    (key_fits : 7 + key.length ≤ Regex.uint32Max) :
    ∃ c, sdesDecodeCrypto (ascii "1 " ++ suite ++ ascii " " ++ (ascii "inline:" ++ key)) = .ok c ∧
      c.tag = 1 ∧ c.suite.val = suite ∧ c.keyMethod.val = ascii "inline" ∧ c.keyInfo.val = key := by
  have prms_fits : (ascii "inline:" ++ key).length ≤ Regex.uint32Max := by
    rw [List.length_append]
    exact key_fits
  have prms_some : ascii "inline:" ++ key ≠ [] := List.cons_ne_nil _ _
  obtain ⟨keyPrms, none_, sessPrms, found, prms⟩ := crypto_found suite_some suite_plain suite_fits prms_some
    (prms_plain key_plain.1 (by decide)) prms_fits
  obtain ⟨none', lifetime, none'', mki, found'⟩ := key_found key_some key_plain.2 (by omega)
  rw [← prms] at found'
  refine ⟨⟨1, ⟨2, suite⟩, Pl.within keyPrms ⟨0, ascii "inline"⟩, Pl.within keyPrms ⟨7, key⟩,
    Pl.within keyPrms lifetime, Pl.within keyPrms mki, sessPrms⟩, ?_, rfl, rfl, rfl, rfl⟩
  unfold sdesDecodeCrypto
  simp only [bind, Except.bind, found, found']
  rfl

/-- What was written is read back for fields that are not empty and that the counter of the search can
    count, the key with the seven bytes before it. -/
theorem written_decoded_iff (m : SdpMline δ) {suite key : List Byte} (suite_plain : chr ' ' ∉ suite ∧ 0 ∉ suite)
    (key_plain : chr ' ' ∉ key ∧ chr '|' ∉ key ∧ 0 ∉ key) :
    (∃ v c, lattrs (sdesEncodeCrypto m suite key) sdpAttrCrypto = [v] ∧ sdesDecodeCrypto v = .ok c ∧
      c.tag = 1 ∧ c.suite.val = suite ∧ c.keyMethod.val = ascii "inline" ∧ c.keyInfo.val = key) ↔
      suite ≠ [] ∧ suite.length ≤ Regex.uint32Max ∧ key ≠ [] ∧ 7 + key.length ≤ Regex.uint32Max := by
  constructor
  · rintro ⟨v, c, -, decoded, -, rfl, method, rfl⟩
    obtain ⟨suite_some, suite_fits, key_some, key_fits⟩ := sdesDecodeCrypto_bounds decoded
    rw [method] at key_fits
    exact ⟨suite_some, suite_fits, key_some, key_fits⟩
  · rintro ⟨suite_some, suite_fits, key_some, key_fits⟩
    obtain ⟨c, decoded, fields⟩ := written_decoded suite_some suite_plain.1 suite_fits key_some
      ⟨key_plain.1, key_plain.2.1⟩ key_fits
    have whole : ascii "1 " ++ suite ++ ascii " inline:" ++ key =
        ascii "1 " ++ suite ++ ascii " " ++ (ascii "inline:" ++ key) := by
      rw [← List.append_assoc, List.append_assoc (ascii "1 " ++ suite) (ascii " ") (ascii "inline:")]
      rfl
    have plain : 0 ∉ ascii "1 " ++ suite ++ ascii " inline:" ++ key := by
      simp only [List.mem_append, not_or]
      exact ⟨⟨⟨by decide, suite_plain.2⟩, by decide⟩, key_plain.2.2⟩
    refine ⟨ascii "1 " ++ suite ++ ascii " inline:" ++ key, c, ?_, ?_, fields⟩
    · rw [sdesEncodeCrypto, lattrs_replaced, cstr_whole plain]
    · rw [whole]
      exact decoded

def mline : SdpMline Unit := mediaAlloc (ascii "audio") (ascii "RTP/SAVP")

theorem written_decoded_short :
    ∃ v c, lattrs (sdesEncodeCrypto mline (ascii "AES_CM_128_HMAC_SHA1_80") (ascii "QUJD")) sdpAttrCrypto = [v] ∧
      sdesDecodeCrypto v = .ok c ∧ c.tag = 1 ∧ c.suite.val = ascii "AES_CM_128_HMAC_SHA1_80" ∧
      c.keyMethod.val = ascii "inline" ∧ c.keyInfo.val = ascii "QUJD" :=
  (written_decoded_iff mline (by decide) (by decide)).mpr (by decide)

/-- A key of no bytes is written, and the value is not read back. -/
theorem empty_key_refused :
    ∃ v, lattrs (sdesEncodeCrypto mline (ascii "AES_CM_128_HMAC_SHA1_80") []) sdpAttrCrypto = [v] ∧
      sdesDecodeCrypto v = .error .ENOENT := by
  refine ⟨ascii "1 AES_CM_128_HMAC_SHA1_80 inline:", ?_, ?_⟩
  · rw [sdesEncodeCrypto, lattrs_replaced]
    repeat rw [ascii_ofList]
    decide
  · rw [ascii_ofList]
    decide

end Baresip.Srtp
