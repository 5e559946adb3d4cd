import Boot2Deb.Rust.Outcome
import Boot2Deb.Rust.Str

/-!
# The shapes of single values (`core/src/hostname.rs`, `wifi.rs`, `staticip.rs`)

What a host name, a Wi-Fi network, its passphrase and a static address may be. A refused value is a
clause that names the offending property.
-/

namespace Boot2Deb.Core
open Rust

/-! ### Host names -/

namespace Hostname

def MAX_HOSTNAME_LEN : ℕ := 64

def MAX_LABEL_LEN : ℕ := 63

/-- One round of the loop over the labels. -/
def checkLabel (label : Str) : Outcome Str Unit :=
  if label.isEmpty then .err "has an empty label — a leading, trailing, or doubled '.'".toList
  else if MAX_LABEL_LEN < byteLen label then
    .err "has a label longer than 63 characters, which DNS does not allow".toList
  else if label.head? = some '-' ∨ label.getLast? = some '-' then
    .err "has a label starting or ending with '-'".toList
  else if !label.all fun c => c.isAlphanum || c == '-' then .err "labels are [A-Za-z0-9-]".toList
  else .ok ()

def checkLabels : List Str → Outcome Str Unit
  | [] => .ok ()
  | label :: labels => (checkLabel label).bind fun _ => checkLabels labels

/-- `hostname::check`: the host-name shape of RFC 1123. -/
def check (name : Str) : Outcome Str Unit :=
  if name.isEmpty then .err "empty".toList
  else if MAX_HOSTNAME_LEN < byteLen name then
    .err "longer than 64 characters, which the kernel cannot hold".toList
  else checkLabels (name.splitOn '.')

end Hostname

/-! ### Wi-Fi -/

namespace Wifi

def MAX_SSID_LEN : ℕ := 32

def MIN_PSK_LEN : ℕ := 8

def MAX_PSK_LEN : ℕ := 63

/-- `check_ssid`. -/
def checkSsid (ssid : Str) : Outcome Str Unit :=
  if ssid.isEmpty then .err "empty".toList
  else if MAX_SSID_LEN < byteLen ssid then
    .err "longer than 32 bytes, which 802.11 does not allow".toList
  else if ssid.any isControl then
    .err "contains a control character, which a seed line does not allow".toList
  else if ssid ≠ trim ssid then
    .err "starts or ends with whitespace, which the seed parser trims away".toList
  else .ok ()

/-- `char::is_ascii_hexdigit`. -/
def isHexDigit (c : Char) : Bool :=
  c.isDigit || (0x61 ≤ c.toNat && c.toNat ≤ 0x66) || (0x41 ≤ c.toNat && c.toNat ≤ 0x46)

/-- `char::is_ascii_graphic`. -/
def isGraphic (c : Char) : Bool := 0x21 ≤ c.toNat && c.toNat ≤ 0x7e

/-- `check_psk`. -/
def checkPsk (psk : Str) : Outcome Str Unit :=
  if byteLen psk = 64 then
    if psk.all isHexDigit then .ok ()
    else .err "64 characters is the raw-key form, which must be all hex digits".toList
  else if byteLen psk < MIN_PSK_LEN then .err "shorter than 8 characters, which WPA refuses".toList
  else if MAX_PSK_LEN < byteLen psk then
    .err "longer than 63 characters, which WPA refuses (64 hex digits names a raw key)".toList
  else if !psk.all fun c => isGraphic c || c == ' ' then
    .err "contains a character outside printable ASCII, which WPA refuses".toList
  else if psk ≠ trim psk then
    .err "starts or ends with whitespace, which the seed parser trims away".toList
  else .ok ()

end Wifi

/-! ### Static addresses -/

namespace StaticIp

/-- One octet: at most three digits, without leading zeroes, at most 255. -/
def parseOctet (s : Str) : Option ℕ :=
  if s.isEmpty || 3 < s.length || !s.all Char.isDigit || (s.head? = some '0' && s ≠ ['0']) ||
    255 < decimal s then none
  else some (decimal s)

/-- `Ipv4Addr::from_str`: a dotted quad, the octets in order. -/
def parseIpv4 (s : Str) : Option (List ℕ) :=
  if 15 < byteLen s then none
  else
    let octets := (s.splitOn '.').map parseOctet
    if octets.length = 4 then octets.mapM id else none

/-- `str::parse::<u8>` of digits. -/
def parsePrefix (s : Str) : Option ℕ :=
  if s.isEmpty || !s.all Char.isDigit || 255 < decimal s then none else some (decimal s)

/-- The fields behind the address: the gateway, then the servers. -/
def checkFields (first : Bool) : List Str → Outcome Str Unit
  | [] => .ok ()
  | field :: fields =>
    if field.isEmpty then .err "has an empty field (a doubled or trailing comma)".toList
    else if (parseIpv4 field).isNone then
      .err (if first then "the gateway is not an IPv4 dotted quad".toList
        else "a DNS server is not an IPv4 dotted quad".toList)
    else checkFields false fields

/-- The first field: an address and the length of its prefix. -/
def checkAddress (address : Str) : Outcome Str Unit :=
  match splitOnce address '/' with
  | none =>
    .err "the address has no /prefix (use address/prefix, e.g. 192.168.1.50/24)".toList
  | some (addr, pre) =>
    if (parseIpv4 addr).isNone then .err "the address is not an IPv4 dotted quad".toList
    else if !pre.all Char.isDigit || !(parsePrefix pre).any (fun p => 1 ≤ p ∧ p ≤ 32) then
      .err "the prefix length is not 1-32".toList
    else .ok ()

/-- `staticip::check`. -/
def check (value : Str) : Outcome Str Unit :=
  if value.isEmpty then .err "empty".toList
  else if value.any fun c => isWhitespace c || isControl c then
    .err "contains whitespace or a control character, which the grammar has no place for".toList
  else (checkAddress ((value.splitOn ',').headD [])).bind fun _ =>
    checkFields true ((value.splitOn ',').drop 1)

end StaticIp

/-! ### Values on one line -/

/-- A text a line can hold as it is: there, without a line break, without blanks at its ends. -/
structure OnOneLine (value : Str) : Prop where
  ne_nil : value ≠ []
  newline : '\n' ∉ value
  trimmed : trim value = value

variable {value : Str}

theorem OnOneLine.of_graphic (hne : value ≠ [])
    (h : ∀ c ∈ value, 0x21 ≤ c.toNat ∧ c.toNat ≤ 0x7e) : OnOneLine value where
  ne_nil := hne
  newline hc := absurd (h _ hc).1 (by decide)
  trimmed := trim_of_inked fun c hc =>
    isWhitespace_of_graphic (by have := (h c hc).1; omega) (by have := (h c hc).2; omega)

namespace Hostname

theorem forall_of_checkLabels {labels : List Str} (h : checkLabels labels = .ok ()) :
    ∀ label ∈ labels, checkLabel label = .ok () := by
  induction labels with
  | nil => simp
  | cons label labels ih =>
    obtain ⟨⟨⟩, hlabel, hrest⟩ := Outcome.bind_eq_ok.mp h
    exact List.forall_mem_cons.mpr ⟨hlabel, ih hrest⟩

theorem graphic_of_mem_label {label : Str} (h : checkLabel label = .ok ()) {c : Char}
    (hc : c ∈ label) : 0x21 ≤ c.toNat ∧ c.toNat ≤ 0x7e := by
  rw [checkLabel] at h
  split_ifs at h with hempty hlong hhyphen hchars
  rw [Bool.not_eq_true', Bool.not_eq_false, List.all_eq_true] at hchars
  have hchar := hchars c hc
  simp only [Bool.or_eq_true, beq_iff_eq, Char.isAlphanum, Char.isAlpha, Char.isUpper,
    Char.isLower, Char.isDigit, Bool.and_eq_true, decide_eq_true_eq, UInt32.le_iff_toNat_le,
    ge_iff_le] at hchar
  change ((((65 ≤ c.toNat ∧ c.toNat ≤ 90) ∨ (97 ≤ c.toNat ∧ c.toNat ≤ 122)) ∨
    (48 ≤ c.toNat ∧ c.toNat ≤ 57)) ∨ c = '-') at hchar
  rcases hchar with ((hchar | hchar) | hchar) | rfl
  · omega
  · omega
  · omega
  · decide

theorem onOneLine (h : check value = .ok ()) : OnOneLine value := by
  rw [check] at h
  split_ifs at h with hempty hlong
  refine OnOneLine.of_graphic (by simpa using hempty) fun c hc => ?_
  by_cases hdot : c = '.'
  · rw [hdot]
    decide
  · obtain ⟨label, hlabel, hmem⟩ := exists_mem_splitOn hc hdot
    exact graphic_of_mem_label (forall_of_checkLabels h label hlabel) hmem

end Hostname

namespace Wifi

theorem toNat_of_isHexDigit {c : Char} (h : isHexDigit c = true) :
    0x21 ≤ c.toNat ∧ c.toNat ≤ 0x7e := by
  simp only [isHexDigit, Bool.or_eq_true, Bool.and_eq_true, decide_eq_true_eq] at h
  rcases h with (h | h) | h
  · rw [Char.isDigit_iff_toNat] at h
    have hlow : 48 ≤ c.toNat := h.1
    have hhigh : c.toNat ≤ 57 := h.2
    omega
  · omega
  · omega

theorem ssid_onOneLine (h : checkSsid value = .ok ()) : OnOneLine value := by
  rw [checkSsid] at h
  split_ifs at h with hempty hlong hcontrol htrim
  refine ⟨by simpa using hempty, fun hc => hcontrol ?_, (not_not.mp htrim).symm⟩
  exact List.any_eq_true.mpr ⟨'\n', hc, by decide⟩

theorem psk_onOneLine (h : checkPsk value = .ok ()) : OnOneLine value := by
  rw [checkPsk] at h
  split_ifs at h with hraw hhex hshort hlong hchars htrim
  · refine OnOneLine.of_graphic ?_ fun c hc => toNat_of_isHexDigit (List.all_eq_true.mp hhex c hc)
    rintro rfl
    exact absurd hraw (by decide)
  · refine ⟨?_, fun hc => ?_, (not_not.mp htrim).symm⟩
    · rintro rfl
      exact hshort (by decide)
    · rw [Bool.not_eq_true', Bool.not_eq_false, List.all_eq_true] at hchars
      exact absurd (hchars _ hc) (by decide)

end Wifi

namespace StaticIp

theorem onOneLine (h : check value = .ok ()) : OnOneLine value ∧ ∀ c ∈ value, isWhitespace c = false := by
  rw [check] at h
  split_ifs at h with hempty hblank
  rw [Bool.not_eq_true, List.any_eq_false] at hblank
  have hsolid : ∀ c ∈ value, isWhitespace c = false := by
    intro c hc
    have := hblank c hc
    rw [Bool.or_eq_true, not_or] at this
    simpa using this.1
  exact ⟨⟨by simpa using hempty, fun hc => absurd (hsolid _ hc) (by decide), trim_of_inked hsolid⟩,
    hsolid⟩

end StaticIp

end Boot2Deb.Core
