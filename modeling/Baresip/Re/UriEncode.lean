import Baresip.Re.Runs
import Baresip.Re.Uri

set_option linter.dupNamespace false

namespace Baresip.Re

/-- The address family that a URI has for its host. -/
inductive Af
  | unspec | inet | inet6
  deriving DecidableEq, Repr

def encodeUser (user password : List Byte) : List Byte :=
  if user = [] then [] else user ++ (if password = [] then [] else chr ':' :: password) ++ [chr '@']

def encodeHostport (af : Af) (host : List Byte) (port : BitVec 16) : List Byte :=
  (if af = .inet6 then chr '[' :: (host ++ [chr ']']) else host) ++ if port = 0 then [] else chr ':' :: decimal port.toNat

def uriEncode (af : Af) (uri : Uri (List Byte)) : Except Errno (List Byte) :=
  if uri.scheme = [] ∨ uri.host = [] then .error .EINVAL
  else
    .ok (uri.scheme ++ chr ':' :: (encodeUser (uri.user.getD []) (uri.password.getD []) ++
      (encodeHostport af uri.host uri.port ++ (uri.params ++ uri.headers))))

/-- No component has a delimiter of a later one, and the text has a length of the platform. -/
structure Delimited (af : Af) (uri : Uri (List Byte)) : Prop where
  scheme : uri.scheme ≠ [] ∧ chr ':' ∉ uri.scheme
  user : ∀ c ∈ uri.user.getD [], c ≠ chr ':' ∧ c ≠ chr '@'
  password : (uri.password.getD []).head? ≠ some (chr ':') ∧ chr '@' ∉ uri.password.getD []
  host : uri.host ≠ [] ∧ ∀ c ∈ uri.host, c ∉ ascii "@[;? "
  params : (∀ c ∈ uri.params.head?, c ∈ ascii "; ") ∧ ∀ c ∈ uri.params, c ∉ ascii "@?"
  headers : (∀ c ∈ uri.headers.head?, c = chr '?') ∧ chr '@' ∉ uri.headers
  fits : ∀ text, uriEncode af uri = .ok text → text.length ≤ Regex.uint32Max

/-- A decoded URI has the components. -/
structure Has (decoded : Uri Pl) (uri : Uri (List Byte)) : Prop where
  scheme : decoded.scheme.val = uri.scheme
  user : (decoded.user.map Pl.val).getD [] = uri.user.getD []
  password : (decoded.password.map Pl.val).getD [] = uri.password.getD []
  host : decoded.host.val = uri.host
  port : decoded.port = uri.port
  params : decoded.params.val = uri.params
  headers : decoded.headers.val = uri.headers

def UriRoundTrips (af : Af) (uri : Uri (List Byte)) : Prop :=
  ∃ text decoded, uriEncode af uri = .ok text ∧ uriDecode ⟨0, text⟩ = .ok decoded ∧ Has decoded uri

/-- The hexadecimal digits and the colon of an IPv6 address. -/
def AddrByte (c : Byte) : Prop := Digit c ∨ (0x61 ≤ tolower c ∧ tolower c ≤ 0x66) ∨ c = chr ':'

instance (c : Byte) : Decidable (AddrByte c) := inferInstanceAs (Decidable (_ ∨ _))

/-- The brackets go with an IPv6 address in hexadecimal, and no others have a colon. -/
def Bracketed (af : Af) (host : List Byte) : Prop :=
  if af = .inet6 then ∀ c ∈ host, AddrByte c else chr ':' ∉ host

instance (af : Af) (host : List Byte) : Decidable (Bracketed af host) :=
  inferInstanceAs (Decidable (if af = .inet6 then ∀ c ∈ host, AddrByte c else chr ':' ∉ host))

/-! The patterns. -/

def colonClass : List Chr := singles [chr ':']

def addrClass : List Chr := [⟨chr '0', chr '9'⟩, ⟨chr 'a', chr 'f'⟩, ⟨chr ':', chr ':'⟩]

def userItems : List Item :=
  [.cls true false (singles (ascii ":")) 1 Regex.uint32Max, .lit (chr ':'),
    .cls true false (singles (ascii "@:")) 0 Regex.uint32Max, .cls false false (singles (ascii ":")) 0 Regex.uint32Max,
    .cls true false (singles (ascii "@")) 0 Regex.uint32Max, .lit (chr '@'),
    .cls true false (singles (ascii ";? ")) 1 Regex.uint32Max, .cls true false (singles (ascii "?")) 0 Regex.uint32Max,
    .cls true false [] 0 Regex.uint32Max]

def plainItems : List Item :=
  [.cls true false (singles (ascii ":")) 1 Regex.uint32Max, .lit (chr ':'),
    .cls true false (singles (ascii ";? ")) 1 Regex.uint32Max, .cls true false (singles (ascii "?")) 0 Regex.uint32Max,
    .cls true false [] 0 Regex.uint32Max]

def bracketItems : List Item :=
  [.lit (chr '['), .cls false false addrClass 1 Regex.uint32Max, .lit (chr ']'),
    .cls false false (singles (ascii ":")) 0 Regex.uint32Max, .cls false false digitClass 0 Regex.uint32Max]

def nameItems : List Item :=
  [.cls true false (singles (ascii ":")) 1 Regex.uint32Max, .cls false false (singles (ascii ":")) 0 Regex.uint32Max,
    .cls false false digitClass 0 Regex.uint32Max]

theorem user_parses : Regex.Parses (ascii "[^:]+:[^@:]*[:]*[^@]*@[^;? ]+[^?]*[^]*") userItems := by
  have scheme : Regex.Opens (ascii "[^:]+") true false (singles (ascii ":")) 1 Regex.uint32Max :=
    .ofList fun _ _ _ _ _ _ _ _ _ => rfl
  have user : Regex.Opens (ascii "[^@:]*") true false (singles (ascii "@:")) 0 Regex.uint32Max :=
    .ofList fun _ _ _ _ _ _ _ _ _ => rfl
  have colons : Regex.Opens (ascii "[:]*") false false (singles (ascii ":")) 0 Regex.uint32Max :=
    .ofList fun _ _ _ _ _ _ _ _ _ => rfl
  have password : Regex.Opens (ascii "[^@]*") true false (singles (ascii "@")) 0 Regex.uint32Max :=
    .ofList fun _ _ _ _ _ _ _ _ _ => rfl
  have hostport : Regex.Opens (ascii "[^;? ]+") true false (singles (ascii ";? ")) 1 Regex.uint32Max :=
    .ofList fun _ _ _ _ _ _ _ _ _ => rfl
  have params : Regex.Opens (ascii "[^?]*") true false (singles (ascii "?")) 0 Regex.uint32Max :=
    .ofList fun _ _ _ _ _ _ _ _ _ => rfl
  have headers : Regex.Opens (ascii "[^]*") true false [] 0 Regex.uint32Max := .ofList fun _ _ _ _ _ _ _ _ _ => rfl
  exact .ofList (((((((((Regex.Parses.nil.cls headers).cls params).cls hostport).lit (by decide)).cls password).cls
    colons).cls user).lit (by decide)).cls scheme)

theorem plain_parses : Regex.Parses (ascii "[^:]+:[^;? ]+[^?]*[^]*") plainItems := by
  have scheme : Regex.Opens (ascii "[^:]+") true false (singles (ascii ":")) 1 Regex.uint32Max :=
    .ofList fun _ _ _ _ _ _ _ _ _ => rfl
  have hostport : Regex.Opens (ascii "[^;? ]+") true false (singles (ascii ";? ")) 1 Regex.uint32Max :=
    .ofList fun _ _ _ _ _ _ _ _ _ => rfl
  have params : Regex.Opens (ascii "[^?]*") true false (singles (ascii "?")) 0 Regex.uint32Max :=
    .ofList fun _ _ _ _ _ _ _ _ _ => rfl
  have headers : Regex.Opens (ascii "[^]*") true false [] 0 Regex.uint32Max := .ofList fun _ _ _ _ _ _ _ _ _ => rfl
  exact .ofList (((((Regex.Parses.nil.cls headers).cls params).cls hostport).lit (by decide)).cls scheme)

theorem name_parses : Regex.Parses (ascii "[^:]+[:]*[0-9]*") nameItems := by
  have host : Regex.Opens (ascii "[^:]+") true false (singles (ascii ":")) 1 Regex.uint32Max :=
    .ofList fun _ _ _ _ _ _ _ _ _ => rfl
  have colons : Regex.Opens (ascii "[:]*") false false (singles (ascii ":")) 0 Regex.uint32Max :=
    .ofList fun _ _ _ _ _ _ _ _ _ => rfl
  have port : Regex.Opens (ascii "[0-9]*") false false digitClass 0 Regex.uint32Max := .ofList fun _ _ _ _ _ _ _ _ _ => rfl
  exact .ofList (((Regex.Parses.nil.cls port).cls colons).cls host)

theorem bracket_parses : Regex.Parses (ascii "\\[[0-9a-f:]+\\][:]*[0-9]*") bracketItems := by
  have host : Regex.Opens (ascii "[0-9a-f:]+") false false addrClass 1 Regex.uint32Max :=
    .ofList fun _ _ _ _ _ _ _ _ _ => rfl
  have colons : Regex.Opens (ascii "[:]*") false false (singles (ascii ":")) 0 Regex.uint32Max :=
    .ofList fun _ _ _ _ _ _ _ _ _ => rfl
  have port : Regex.Opens (ascii "[0-9]*") false false digitClass 0 Regex.uint32Max := .ofList fun _ _ _ _ _ _ _ _ _ => rfl
  exact .ofList (((((Regex.Parses.nil.cls port).cls colons).escaped).cls host).escaped)

theorem addrClass_iff (c : Byte) : exprMatch addrClass (tolower c) false = decide (AddrByte c) := by
  revert c
  decide +kernel

/-! The host and the port. -/

def portText (port : BitVec 16) : List Byte := if port = 0 then [] else chr ':' :: decimal port.toNat

def portDigits (port : BitVec 16) : List Byte := if port = 0 then [] else decimal port.toNat

theorem uriPort_digits (off : Nat) (port : BitVec 16) : uriPort ⟨off, portDigits port⟩ = port := by
  unfold uriPort portDigits
  by_cases zero : port = 0
  · rw [if_pos (by rw [if_pos zero]), zero]
  · rw [if_neg zero, if_neg (decimal_some _), decimal_u32]
    apply BitVec.eq_of_toNat_eq
    have := port.isLt
    simp only [BitVec.toNat_setWidth, BitVec.toNat_ofNat]
    omega

theorem colon_not_digit : ¬ Digit (chr ':') := by decide

/-- The colon and the digits of a port, which come at the end. -/
theorem port_taken (port : BitVec 16) (fits : (portText port).length ≤ Regex.uint32Max) (off : Nat) :
    ∃ colons off', matchItems [.cls false false (singles (ascii ":")) 0 Regex.uint32Max,
      .cls false false digitClass 0 Regex.uint32Max] off (portText port) = .ok [colons, ⟨off', portDigits port⟩] := by
  unfold portText portDigits at *
  split_ifs at fits ⊢ with zero
  · exact ⟨_, _, rfl⟩
  · have digits := decimal_digits port.toNat
    simp only [List.length_cons] at fits
    have apart : ∀ c ∈ (decimal port.toNat).head?, c ∉ [chr ':'] := by
      intro c first colon
      have digit := digits c (List.mem_of_mem_head? first)
      rw [List.mem_singleton.mp colon] at digit
      exact colon_not_digit digit
    have colon (items : List Item) : matchItems (.cls false false (singles (ascii ":")) 0 Regex.uint32Max :: items) off
        (chr ':' :: decimal port.toNat) = (matchItems items (off + 1) (decimal port.toNat)).map (⟨off, [chr ':']⟩ :: ·) :=
      matchItems_within (x := [chr ':']) (caseless_of (by decide)) (by decide) (by decide) (by decide) apart _ _
    have number (off : Nat) : matchItems [.cls false false digitClass 0 Regex.uint32Max] off (decimal port.toNat ++ []) = _ :=
      matchItems_digits (by omega) (Nat.zero_le _) digits (by simp) _ _
    rw [List.append_nil] at number
    exact ⟨_, _, by rw [colon, number]; rfl⟩

theorem portText_head (port : BitVec 16) : ∀ c ∈ (portText port).head?, c = chr ':' := by
  unfold portText
  split_ifs
  · exact nofun
  · rintro c ⟨⟩
    rfl

theorem decodeHostport_bracket {host : List Byte} {port : BitVec 16} (some_ : host ≠ []) (addr : ∀ c ∈ host, AddrByte c)
    (fits : (encodeHostport .inet6 host port).length ≤ Regex.uint32Max) (off : Nat) :
    ∃ off' off'', decodeHostport ⟨off, encodeHostport .inet6 host port⟩ = .ok (⟨off', host⟩, ⟨off'', portDigits port⟩) := by
  have text : encodeHostport .inet6 host port = chr '[' :: (host ++ chr ']' :: portText port) := by
    simp [encodeHostport, portText]
  have lengths := congrArg List.length text
  simp only [List.length_cons, List.length_append] at lengths
  obtain ⟨colons, off', rest⟩ := port_taken port (by omega) (0 + 1 + host.length + 1)
  have inside : matchItems (.cls false false addrClass 1 Regex.uint32Max :: .lit (chr ']') ::
      [.cls false false (singles (ascii ":")) 0 Regex.uint32Max, .cls false false digitClass 0 Regex.uint32Max]) (0 + 1)
      (host ++ chr ']' :: portText port) = _ :=
    matchItems_run (by omega) (List.length_pos_iff.mpr some_)
      (fun c member => by rw [addrClass_iff, decide_eq_true_iff]; exact addr c member)
      (by rintro c ⟨⟩; rw [addrClass_iff]; decide) _ _
  have found : reRegex (encodeHostport .inet6 host port) (ascii "\\[[0-9a-f:]+\\][:]*[0-9]*") =
      .ok [⟨1, host⟩, colons, ⟨off', portDigits port⟩] := by
    rw [text]
    apply reRegex_front bracket_parses (by decide) (List.cons_ne_nil _ _)
    rw [bracketItems, matchItems_lit, inside, matchItems_lit, rest]
    rfl
  exact ⟨_, _, by rw [decodeHostport, found]; rfl⟩

/-- A pattern that begins with a literal is not found where the literal is not. -/
theorem reRegex_missing {expr text : List Byte} {items : List Item} {b : Byte} (fixed : ∀ c, tolower c = b ↔ c = b)
    (parses : Regex.Parses expr (.lit b :: items)) (some_ : expr ≠ []) (missing : b ∉ text) (captures : List Pl) :
    reRegex text expr ≠ .ok captures := by
  intro found
  obtain ⟨before, after, rfl, -, hit, -⟩ := (reRegexFrom_ok parses some_ 0 text captures).mp found
  obtain ⟨x, p, rfl, same, -⟩ := matchItems_lit_ok hit
  have here := (fixed x).mp (same.symm.trans ((fixed b).mpr rfl))
  exact missing (List.mem_append_right before (here ▸ List.mem_cons_self))

theorem bracket_fixed (c : Byte) : tolower c = chr '[' ↔ c = chr '[' := tolower_fixed (by decide) (by decide) c

theorem portText_plain (bs : List Byte) (colon : chr ':' ∉ bs) (digits : ∀ c ∈ bs, ¬ Digit c) (port : BitVec 16) :
    ∀ c ∈ portText port, c ∉ bs := by
  intro c member inside
  unfold portText at member
  split_ifs at member
  · exact List.not_mem_nil member
  · rcases List.mem_cons.mp member with rfl | member
    · exact colon inside
    · exact digits c inside (decimal_digits _ c member)

theorem decodeHostport_name {af : Af} {host : List Byte} {port : BitVec 16} (family : af ≠ .inet6) (some_ : host ≠ [])
    (plain : chr ':' ∉ host) (open_ : chr '[' ∉ host)
    (fits : (encodeHostport af host port).length ≤ Regex.uint32Max) (off : Nat) :
    ∃ off' off'', decodeHostport ⟨off, encodeHostport af host port⟩ = .ok (⟨off', host⟩, ⟨off'', portDigits port⟩) := by
  have text : encodeHostport af host port = host ++ portText port := by
    simp [encodeHostport, portText, family]
  have lengths := congrArg List.length text
  rw [List.length_append] at lengths
  have missing : chr '[' ∉ host ++ portText port := by
    rw [List.mem_append, not_or]
    exact ⟨open_, fun inside => portText_plain [chr '['] (by decide) (by decide) port _ inside (by simp)⟩
  have none_ := reRegex_missing bracket_fixed bracket_parses (by decide) missing
  obtain ⟨colons, off', rest⟩ := port_taken port (by omega) (0 + host.length)
  have found : reRegex (host ++ portText port) (ascii "[^:]+[:]*[0-9]*") =
      .ok [⟨0, host⟩, colons, ⟨off', portDigits port⟩] := by
    apply reRegex_front name_parses (by decide) (List.append_ne_nil_of_left_ne_nil some_ _)
    have taken := matchItems_until colon_fixed (x := host) (by omega) (List.length_pos_iff.mpr some_) plain
      (portText_head port) [.cls false false (singles (ascii ":")) 0 Regex.uint32Max,
        .cls false false digitClass 0 Regex.uint32Max] 0
    exact taken.trans (by rw [rest]; rfl)
  refine ⟨off + 0, off + off', ?_⟩
  rw [decodeHostport, text]
  split
  · rename_i bracket
    exact absurd bracket (none_ _)
  · rw [found]
    rfl

/-- A host in brackets has the bytes of an address, and any other one is found by the second pattern and has no colon. -/
theorem decodeHostport_bytes {hostport host port : Pl} (decoded : decodeHostport hostport = .ok (host, port)) :
    (∃ captures, reRegex hostport.val (ascii "\\[[0-9a-f:]+\\][:]*[0-9]*") = .ok captures ∧ ∀ c ∈ host.val, AddrByte c) ∨
      ∃ off captures, reRegex hostport.val (ascii "[^:]+[:]*[0-9]*") = .ok (⟨off, host.val⟩ :: captures) ∧
        chr ':' ∉ host.val := by
  unfold decodeHostport at decoded
  split at decoded
  · rename_i host' _ _ found
    cases decoded
    refine .inl ⟨_, found, fun c member => ?_⟩
    obtain ⟨before, after, -, -, hit, -⟩ := (reRegexFrom_ok bracket_parses (by decide) 0 _ _).mp found
    obtain ⟨x, p, -, -, hit⟩ := matchItems_lit_ok hit
    obtain ⟨rest, captured, -, -⟩ := matchItems_many_ok hit
    have value : host'.val = _ := congrArg Pl.val (List.cons.inj captured).1
    have inside := classRun_all c (value ▸ member : c ∈ classRun false addrClass _)
    rwa [addrClass_iff, decide_eq_true_iff] at inside
  · split at decoded
    · rename_i host' _ _ found
      cases decoded
      refine .inr ⟨host'.off, _, found, fun member => ?_⟩
      obtain ⟨before, after, -, -, hit, -⟩ := (reRegexFrom_ok name_parses (by decide) 0 _ _).mp found
      obtain ⟨rest, captured, -, -⟩ := matchItems_many_ok hit
      have value : host'.val = _ := congrArg Pl.val (List.cons.inj captured).1
      have inside := classRun_all _ (value ▸ member : chr ':' ∈ classRun true (singles (ascii ":")) _)
      exact absurd inside (by decide)
    · contradiction
    · contradiction

theorem stars_ok (neg neg' : Bool) (chrv chrv' : List Chr) (off : Nat) (p : List Byte) :
    ∃ captures, matchItems [.cls neg false chrv 0 Regex.uint32Max, .cls neg' false chrv' 0 Regex.uint32Max] off p =
      .ok captures := by
  rw [matchItems_many]
  dsimp only
  rw [if_neg (Nat.not_lt_zero _), matchItems_many]
  dsimp only
  rw [if_neg (Nat.not_lt_zero _)]
  exact ⟨_, rfl⟩

/-- A name begins with the first byte that is no colon. -/
theorem name_front {x : Byte} (plain : x ≠ chr ':') (p : List Byte) :
    ∃ run captures, reRegex (x :: p) (ascii "[^:]+[:]*[0-9]*") = .ok (⟨0, x :: run⟩ :: captures) := by
  have inside : exprMatch (singles (ascii ":")) (tolower x) true = true := by
    rw [exprMatch_singles (caseless_of (by decide))]
    simpa [ascii, chr] using plain
  let behind := classRun true (singles (ascii ":")) (p.take (Regex.uint32Max - 1))
  have run : classRun true (singles (ascii ":")) ((x :: p).take Regex.uint32Max) = x :: behind := by
    rw [classRun, show (x :: p).take Regex.uint32Max = x :: p.take (Regex.uint32Max - 1) from rfl, List.takeWhile_cons,
      if_pos inside]
    rfl
  obtain ⟨captures, rest⟩ := stars_ok false false (singles (ascii ":")) digitClass (0 + (x :: behind).length)
    ((x :: p).drop (x :: behind).length)
  have hit : matchItems nameItems 0 (x :: p) = .ok (⟨0, x :: behind⟩ :: captures) := by
    rw [nameItems, matchItems_many, run]
    dsimp only
    rw [if_neg (by simp), rest]
    rfl
  exact ⟨behind, captures, reRegex_front name_parses (by decide) (List.cons_ne_nil _ _) hit⟩

/-- A host that comes back as it was needs its brackets, or has no colon. -/
theorem bracketed_of_decoded {af : Af} {host : List Byte} {port : BitVec 16} {off : Nat} {h p : Pl} (open_ : chr '[' ∉ host)
    (decoded : decodeHostport ⟨off, encodeHostport af host port⟩ = .ok (h, p)) (same : h.val = host) :
    Bracketed af host := by
  unfold Bracketed
  rcases decodeHostport_bytes decoded with ⟨captures, found, addr⟩ | ⟨off', captures, found, plain⟩
  · split_ifs with family
    · exact same ▸ addr
    · have missing : chr '[' ∉ encodeHostport af host port := by
        rw [encodeHostport, if_neg family, List.mem_append, not_or]
        exact ⟨open_, fun inside => portText_plain [chr '['] (by decide) (by decide) port _ inside (by simp)⟩
      exact absurd found (reRegex_missing bracket_fixed bracket_parses (by decide) missing captures)
  · split_ifs with family
    · -- the name that is found begins with the bracket
      have text : encodeHostport af host port = chr '[' :: (host ++ chr ']' :: portText port) := by
        simp [encodeHostport, portText, family]
      obtain ⟨run, captures', front⟩ := name_front (x := chr '[') (by decide) (host ++ chr ']' :: portText port)
      rw [text, front] at found
      have value := congrArg Pl.val (List.cons.inj (Except.ok.inj found)).1
      rw [same] at value
      exact absurd (value ▸ List.mem_cons_self) open_
    · exact same ▸ plain

/-! The whole text. -/

variable {af : Af} {uri : Uri (List Byte)}

theorem hostport_plain (plain : ∀ c ∈ uri.host, c ∉ ascii "@[;? ") :
    ∀ c ∈ encodeHostport af uri.host uri.port, c ∉ ascii "@;? " := by
  have port := portText_plain (ascii "@;? ") (by decide) (by decide) uri.port
  have host : ∀ c ∈ uri.host, c ∉ ascii "@;? " := fun c member inside => plain c member (by
    revert inside
    simp only [ascii, String.reduceToList, List.map_cons, List.map_nil, List.mem_cons]
    tauto)
  intro c member
  unfold encodeHostport at member
  rcases List.mem_append.mp member with member | member
  · split_ifs at member
    · simp only [List.mem_cons, List.mem_append] at member
      rcases member with rfl | member | member | member
      · decide
      · exact host c member
      · rw [member]
        decide
      · exact absurd member List.not_mem_nil
    · exact host c member
  · exact port c member

theorem hostport_some (some_ : uri.host ≠ []) : encodeHostport af uri.host uri.port ≠ [] := by
  unfold encodeHostport
  split_ifs <;> simp [some_]

/-- Behind the host come the parameters, the headers or the end. -/
theorem tail_head (sep : Delimited af uri) : ∀ c ∈ (uri.params ++ uri.headers).head?, c ∈ ascii ";? " := by
  intro c first
  cases empty : uri.params with
  | nil =>
    rw [empty, List.nil_append] at first
    rw [sep.headers.1 c first]
    decide
  | cons d params =>
    rw [empty, List.cons_append, List.head?_cons] at first
    obtain rfl := Option.some.inj first
    have inside := sep.params.1 d (by rw [empty]; rfl)
    revert inside
    simp only [ascii, String.reduceToList, List.map_cons, List.map_nil, List.mem_cons]
    tauto

/-- What both patterns end with. -/
theorem tail_taken (sep : Delimited af uri)
    (fits : (encodeHostport af uri.host uri.port ++ (uri.params ++ uri.headers)).length ≤ Regex.uint32Max) (off : Nat) :
    ∃ off' off'', matchItems [.cls true false (singles (ascii ";? ")) 1 Regex.uint32Max,
        .cls true false (singles (ascii "?")) 0 Regex.uint32Max, .cls true false [] 0 Regex.uint32Max] off
        (encodeHostport af uri.host uri.port ++ (uri.params ++ uri.headers)) =
      .ok [⟨off, encodeHostport af uri.host uri.port⟩, ⟨off', uri.params⟩, ⟨off'', uri.headers⟩] := by
  simp only [List.length_append] at fits
  have some_ : 1 ≤ (encodeHostport af uri.host uri.port).length := List.length_pos_iff.mpr (hostport_some sep.host.1)
  have plain : ∀ c ∈ encodeHostport af uri.host uri.port, c ∉ ascii ";? " := fun c member inside =>
    hostport_plain sep.host.2 c member (List.mem_cons_of_mem (chr '@') inside)
  have question : ∀ c ∈ uri.params, c ∉ ascii "?" := fun c member inside =>
    sep.params.2 c member (List.mem_cons_of_mem (chr '@') inside)
  have start : ∀ c ∈ uri.headers.head?, c ∈ ascii "?" := fun c first => List.mem_singleton.mpr (sep.headers.1 c first)
  have headers (off : Nat) : matchItems [.cls true false (singles []) 0 Regex.uint32Max] off (uri.headers ++ []) = _ :=
    matchItems_without (by simp [Caseless]) (by omega) (Nat.zero_le _) (fun _ _ => List.not_mem_nil) (by simp) _ _
  rw [List.append_nil] at headers
  have params (off : Nat) : matchItems [.cls true false (singles (ascii "?")) 0 Regex.uint32Max,
      .cls true false [] 0 Regex.uint32Max] off (uri.params ++ uri.headers) = _ :=
    matchItems_without (caseless_of (by decide)) (by omega) (Nat.zero_le _) question start _ _
  have found : matchItems (.cls true false (singles (ascii ";? ")) 1 Regex.uint32Max ::
      [.cls true false (singles (ascii "?")) 0 Regex.uint32Max, .cls true false [] 0 Regex.uint32Max]) off
      (encodeHostport af uri.host uri.port ++ (uri.params ++ uri.headers)) = _ :=
    matchItems_without (caseless_of (by decide)) (by omega) some_ plain (tail_head sep) _ _
  rw [params, show ([] : List Chr) = singles [] from rfl, headers] at found
  exact ⟨_, _, found⟩

/-- The first pattern up to the host: the scheme, the user, the colon of a password, and the password. -/
theorem user_hit {scheme user colons password rest : List Byte} {captures : List Pl}
    (fits : scheme.length + user.length + colons.length + password.length ≤ Regex.uint32Max)
    (scheme_ : scheme ≠ [] ∧ chr ':' ∉ scheme) (user_ : ∀ c ∈ user, c ≠ chr ':' ∧ c ≠ chr '@')
    (colons_ : colons = if password = [] then [] else [chr ':'])
    (password_ : password.head? ≠ some (chr ':') ∧ chr '@' ∉ password)
    (tail : matchItems [.cls true false (singles (ascii ";? ")) 1 Regex.uint32Max,
        .cls true false (singles (ascii "?")) 0 Regex.uint32Max, .cls true false [] 0 Regex.uint32Max]
      (0 + scheme.length + 1 + user.length + colons.length + password.length + 1) rest = .ok captures) :
    matchItems userItems 0 (scheme ++ chr ':' :: (user ++ (colons ++ (password ++ chr '@' :: rest)))) =
      .ok (⟨0, scheme⟩ :: ⟨0 + scheme.length + 1, user⟩ :: ⟨0 + scheme.length + 1 + user.length, colons⟩ ::
        ⟨0 + scheme.length + 1 + user.length + colons.length, password⟩ :: captures) := by
  have plain : ∀ c ∈ user, c ∉ ascii "@:" := by
    intro c member inside
    have apart := user_ c member
    simp only [ascii, String.reduceToList, List.map_cons, List.map_nil, List.mem_cons, List.not_mem_nil, or_false] at inside
    exact inside.elim apart.2 apart.1
  have begins : ∀ c ∈ (colons ++ (password ++ chr '@' :: rest)).head?, c ∈ ascii "@:" := by
    rw [colons_]
    split_ifs with none_
    · rw [none_]
      rintro c ⟨⟩
      decide
    · rintro c ⟨⟩
      decide
  have colon : ∀ c ∈ colons, c ∈ ascii ":" := by
    rw [colons_]
    split_ifs <;> simp [ascii, chr]
  have stops : ∀ c ∈ (password ++ chr '@' :: rest).head?, c ∉ ascii ":" := by
    intro c first inside
    obtain rfl : c = chr ':' := List.mem_singleton.mp inside
    cases password with
    | nil => cases first
    | cons d password => exact password_.1 first
  have at_ : ∀ c ∈ password, c ∉ ascii "@" := by
    intro c member inside
    obtain rfl : c = chr '@' := List.mem_singleton.mp inside
    exact password_.2 member
  rw [userItems, show singles (ascii ":") = [⟨chr ':', chr ':'⟩] from rfl,
    matchItems_until colon_fixed (by omega) (List.length_pos_iff.mpr scheme_.1) scheme_.2 (by rintro c ⟨⟩; rfl),
    matchItems_lit, matchItems_without (caseless_of (by decide)) (by omega) (Nat.zero_le _) plain begins,
    show [(⟨chr ':', chr ':'⟩ : Chr)] = singles (ascii ":") from rfl,
    matchItems_within (caseless_of (by decide)) (by omega) (Nat.zero_le _) colon stops,
    matchItems_without (caseless_of (by decide)) (by omega) (Nat.zero_le _) at_ (by rintro c ⟨⟩; decide), matchItems_lit, tail]
  rfl

/-- The second pattern up to the host. -/
theorem plain_hit {scheme rest : List Byte} {captures : List Pl} (fits : scheme.length ≤ Regex.uint32Max)
    (scheme_ : scheme ≠ [] ∧ chr ':' ∉ scheme)
    (tail : matchItems [.cls true false (singles (ascii ";? ")) 1 Regex.uint32Max,
        .cls true false (singles (ascii "?")) 0 Regex.uint32Max, .cls true false [] 0 Regex.uint32Max]
      (0 + scheme.length + 1) rest = .ok captures) :
    matchItems plainItems 0 (scheme ++ chr ':' :: rest) = .ok (⟨0, scheme⟩ :: captures) := by
  rw [plainItems, show singles (ascii ":") = [⟨chr ':', chr ':'⟩] from rfl,
    matchItems_until colon_fixed fits (List.length_pos_iff.mpr scheme_.1) scheme_.2 (by rintro c ⟨⟩; rfl), matchItems_lit,
    tail]
  rfl

theorem matchItems_star (neg : Bool) (chrv : List Chr) (items : List Item) (off : Nat) (p : List Byte) :
    ∃ pl n, matchItems (.cls neg false chrv 0 Regex.uint32Max :: items) off p =
      (matchItems items (off + n) (p.drop n)).map (pl :: ·) := by
  rw [matchItems_many]
  dsimp only
  rw [if_neg (Nat.not_lt_zero _)]
  exact ⟨_, _, rfl⟩

/-- Without an at sign the first pattern comes to the end of the text and is not tried again. -/
theorem user_stops {scheme rest : List Byte} (fits : scheme.length + rest.length ≤ Regex.uint32Max)
    (scheme_ : scheme ≠ [] ∧ chr ':' ∉ scheme) (plain : chr '@' ∉ rest) :
    matchItems userItems 0 (scheme ++ chr ':' :: rest) = .error (.stop .ENOENT) := by
  rw [userItems, show singles (ascii ":") = [⟨chr ':', chr ':'⟩] from rfl,
    matchItems_until colon_fixed (by omega) (List.length_pos_iff.mpr scheme_.1) scheme_.2 (by rintro c ⟨⟩; rfl),
    matchItems_lit]
  obtain ⟨user, n, taken⟩ := matchItems_star true (singles (ascii "@:")) _ (0 + scheme.length + 1) rest
  rw [taken]
  obtain ⟨colons, k, taken⟩ := matchItems_star false [⟨chr ':', chr ':'⟩] _ (0 + scheme.length + 1 + n) (rest.drop n)
  rw [taken]
  have short : ((rest.drop n).drop k).length ≤ Regex.uint32Max := by
    simp only [List.length_drop]
    omega
  have apart : ∀ c ∈ (rest.drop n).drop k, c ∉ ascii "@" := by
    intro c member inside
    obtain rfl : c = chr '@' := List.mem_singleton.mp inside
    exact plain (List.mem_of_mem_drop (List.mem_of_mem_drop member))
  have all (items : List Item) (off : Nat) : matchItems (.cls true false (singles (ascii "@")) 0 Regex.uint32Max :: items)
      off ((rest.drop n).drop k ++ []) = _ :=
    matchItems_without (caseless_of (by decide)) short (Nat.zero_le _) apart (by simp) items off
  rw [List.append_nil] at all
  rw [all]
  rfl

theorem reRegex_error {expr text : List Byte} {items : List Item} {e : Errno} (parses : Regex.Parses expr items)
    (more : text ≠ []) (stops : matchItems items 0 text = .error (.stop e)) : reRegex text expr = .error e := by
  obtain ⟨c, p, rfl⟩ := List.exists_cons_of_ne_nil more
  rw [reRegex, reRegexFrom, run_start parses, stops]

theorem uriEncode_eq (sep : Delimited af uri) : uriEncode af uri =
    .ok (uri.scheme ++ chr ':' :: (encodeUser (uri.user.getD []) (uri.password.getD []) ++
      (encodeHostport af uri.host uri.port ++ (uri.params ++ uri.headers)))) := by
  rw [uriEncode, if_neg (not_or.mpr ⟨sep.scheme.1, sep.host.1⟩)]

theorem uriDecodeUser_found {text scheme user password hostport params headers : List Byte} {colons : Pl}
    {o o1 o2 o3 o4 o5 : Nat} (found : reRegex text (ascii "[^:]+:[^@:]*[:]*[^@]*@[^;? ]+[^?]*[^]*") =
      .ok [⟨o, scheme⟩, ⟨o1, user⟩, colons, ⟨o2, password⟩, ⟨o3, hostport⟩, ⟨o4, params⟩, ⟨o5, headers⟩]) :
    uriDecodeUser ⟨0, text⟩ =
      match decodeHostport ⟨0 + o3, hostport⟩ with
      | .ok (host, port) =>
        some ⟨⟨0 + o, scheme⟩, some ⟨0 + o1, user⟩, some ⟨0 + o2, password⟩, host, uriPort port, ⟨0 + o4, params⟩,
          ⟨0 + o5, headers⟩⟩
      | .error _ => none := by
  rw [uriDecodeUser, found]
  rfl

theorem uriDecode_found {text scheme hostport params headers : List Byte} {o o3 o4 o5 : Nat}
    (none_ : uriDecodeUser ⟨0, text⟩ = none) (found : reRegex text (ascii "[^:]+:[^;? ]+[^?]*[^]*") =
      .ok [⟨o, scheme⟩, ⟨o3, hostport⟩, ⟨o4, params⟩, ⟨o5, headers⟩]) :
    uriDecode ⟨0, text⟩ =
      match decodeHostport ⟨0 + o3, hostport⟩ with
      | .ok (host, port) =>
        .ok ⟨⟨0 + o, scheme⟩, none, none, host, uriPort port, ⟨0 + o4, params⟩, ⟨0 + o5, headers⟩⟩
      | .error e => .error e := by
  rw [uriDecode, none_]
  dsimp only
  rw [found]
  rfl

theorem uriDecodeUser_eq (sep : Delimited af uri) (user : uri.user.getD [] ≠ []) {text : List Byte}
    (encoded : uriEncode af uri = .ok text) :
    ∃ o1 o2 o3 o4 o5, uriDecodeUser ⟨0, text⟩ =
      match decodeHostport ⟨o3, encodeHostport af uri.host uri.port⟩ with
      | .ok (host, port) => some ⟨⟨0, uri.scheme⟩, some ⟨o1, uri.user.getD []⟩, some ⟨o2, uri.password.getD []⟩, host,
          uriPort port, ⟨o4, uri.params⟩, ⟨o5, uri.headers⟩⟩
      | .error _ => none := by
  have fits := sep.fits text encoded
  have userText : encodeUser (uri.user.getD []) (uri.password.getD []) = uri.user.getD [] ++
      ((if uri.password.getD [] = [] then [] else [chr ':']) ++ (uri.password.getD [] ++ [chr '@'])) := by
    unfold encodeUser
    rw [if_neg user]
    split_ifs with none_
    · simp [none_]
    · simp
  rw [uriEncode_eq sep, userText, List.append_assoc, List.append_assoc, List.append_assoc] at encoded
  obtain rfl := Except.ok.inj encoded
  simp only [List.length_append, List.length_cons, List.length_nil] at fits
  obtain ⟨o4, o5, tail⟩ := tail_taken sep (by simp only [List.length_append]; omega) _
  have hit := user_hit (by omega) sep.scheme sep.user rfl sep.password tail
  have found := reRegex_front user_parses (by decide) (by simp) hit
  exact ⟨_, _, _, _, _, uriDecodeUser_found found⟩

theorem uriDecode_plain (sep : Delimited af uri) (user : uri.user.getD [] = []) {text : List Byte}
    (encoded : uriEncode af uri = .ok text) :
    ∃ o3 o4 o5, uriDecode ⟨0, text⟩ =
      match decodeHostport ⟨o3, encodeHostport af uri.host uri.port⟩ with
      | .ok (host, port) => .ok ⟨⟨0, uri.scheme⟩, none, none, host, uriPort port, ⟨o4, uri.params⟩, ⟨o5, uri.headers⟩⟩
      | .error e => .error e := by
  have fits := sep.fits text encoded
  rw [uriEncode_eq sep, user, encodeUser, if_pos rfl, List.nil_append] at encoded
  obtain rfl := Except.ok.inj encoded
  have plain : chr '@' ∉ encodeHostport af uri.host uri.port ++ (uri.params ++ uri.headers) := by
    simp only [List.mem_append, not_or]
    exact ⟨fun member => hostport_plain sep.host.2 _ member (by decide), fun member => sep.params.2 _ member (by decide),
      sep.headers.2⟩
  simp only [List.length_append, List.length_cons] at fits
  have stops := user_stops (by simp only [List.length_append]; omega) sep.scheme plain
  have none_ : uriDecodeUser ⟨0, uri.scheme ++ chr ':' :: (encodeHostport af uri.host uri.port ++
      (uri.params ++ uri.headers))⟩ = none := by
    rw [uriDecodeUser, reRegex_error user_parses (by simp) stops]
  obtain ⟨o4, o5, tail⟩ := tail_taken sep (by simp only [List.length_append]; omega) _
  have found := reRegex_front plain_parses (by decide) (by simp) (plain_hit (by omega) sep.scheme tail)
  exact ⟨_, _, _, uriDecode_found none_ found⟩

theorem uriDecode_user {pl : Pl} {decoded : Uri Pl} (first : uriDecodeUser pl = some decoded) :
    uriDecode pl = .ok decoded := by
  rw [uriDecode, first]

theorem user_none {pl : Pl} {decoded : Uri Pl} (none_ : uriDecodeUser pl = none) (found : uriDecode pl = .ok decoded) :
    decoded.user = none := by
  rw [uriDecode, none_] at found
  dsimp only at found
  split at found
  · split at found
    · cases found
      rfl
    · cases found
  · cases found
  · cases found

theorem decodeHostport_eq (sep : Delimited af uri) (bracketed : Bracketed af uri.host) (off : Nat) : ∃ off' off'',
    decodeHostport ⟨off, encodeHostport af uri.host uri.port⟩ = .ok (⟨off', uri.host⟩, ⟨off'', portDigits uri.port⟩) := by
  have fits := sep.fits _ (uriEncode_eq sep)
  simp only [List.length_append, List.length_cons] at fits
  have open_ : chr '[' ∉ uri.host := fun member => sep.host.2 _ member (by decide)
  unfold Bracketed at bracketed
  split_ifs at bracketed with family
  · rw [family] at fits ⊢
    exact decodeHostport_bracket sep.host.1 bracketed (by omega) off
  · exact decodeHostport_name family sep.host.1 bracketed open_ (by omega) off

/-- A URI comes back from its text if and only if a password comes with a user, and its brackets go with its host. -/
theorem uriRoundTrips_iff (sep : Delimited af uri) : UriRoundTrips af uri ↔
    (uri.user.getD [] = [] → uri.password.getD [] = []) ∧ Bracketed af uri.host := by
  have open_ : chr '[' ∉ uri.host := fun member => sep.host.2 _ member (by decide)
  by_cases user : uri.user.getD [] = []
  · constructor
    · rintro ⟨text, decoded, encoded, found, has⟩
      obtain ⟨o3, o4, o5, plain⟩ := uriDecode_plain sep user encoded
      rw [plain] at found
      split at found
      · rename_i host port at_
        cases found
        exact ⟨fun _ => has.password.symm, bracketed_of_decoded open_ at_ has.host⟩
      · cases found
    · rintro ⟨password, bracketed⟩
      obtain ⟨o3, o4, o5, plain⟩ := uriDecode_plain sep user (uriEncode_eq sep)
      obtain ⟨off', off'', at_⟩ := decodeHostport_eq sep bracketed o3
      rw [at_] at plain
      exact ⟨_, _, uriEncode_eq sep, plain, rfl, user.symm, (password user).symm, rfl, uriPort_digits _ _, rfl, rfl⟩
  · constructor
    · rintro ⟨text, decoded, encoded, found, has⟩
      refine ⟨fun none_ => absurd none_ user, ?_⟩
      obtain ⟨o1, o2, o3, o4, o5, first⟩ := uriDecodeUser_eq sep user encoded
      split at first
      · rename_i host port at_
        rw [uriDecode, first] at found
        cases found
        exact bracketed_of_decoded open_ at_ has.host
      · have none_ := has.user
        rw [user_none first found] at none_
        exact absurd none_.symm user
    · rintro ⟨-, bracketed⟩
      obtain ⟨o1, o2, o3, o4, o5, first⟩ := uriDecodeUser_eq sep user (uriEncode_eq sep)
      obtain ⟨off', off'', at_⟩ := decodeHostport_eq sep bracketed o3
      rw [at_] at first
      exact ⟨_, _, uriEncode_eq sep, uriDecode_user first, rfl, rfl, rfl, rfl, uriPort_digits _ _, rfl, rfl⟩

def callerUri : Uri (List Byte) :=
  ⟨ascii "sip", some (ascii "bob"), some (ascii "pw"), ascii "example.com", 5060, ascii ";ob", ascii "?a=b"⟩

theorem callerUri_delimited : Delimited .unspec callerUri where
  scheme := by decide
  user := by decide
  password := by decide
  host := by decide
  params := by decide
  headers := by decide
  fits := by
    intro text encoded
    obtain rfl := Except.ok.inj encoded
    decide +kernel

theorem uriRoundTrips_iff_caller : UriRoundTrips .unspec callerUri :=
  (uriRoundTrips_iff callerUri_delimited).mpr (by decide +kernel)

/-- What `uri_decode` gives for the host in `sip:[::ffff:102:304]`, with the family of an address that maps an IPv4 one. -/
def mappedUri : Uri (List Byte) := ⟨ascii "sip", none, none, ascii "::ffff:102:304", 0, [], []⟩

theorem mapped_misread : Delimited .inet mappedUri ∧ ¬ UriRoundTrips .inet mappedUri := by
  constructor
  · refine ⟨by decide, by decide, by decide, by decide, by decide,
      by decide, ?_⟩
    intro text encoded
    obtain rfl := Except.ok.inj encoded
    decide +kernel
  · rintro ⟨text, decoded, encoded, found, has⟩
    obtain rfl := Except.ok.inj encoded
    have misread : (uriDecode ⟨0, ascii "sip:::ffff:102:304"⟩).map (fun u => u.host.val) = .ok (ascii "ffff") := by
      rw [ascii_ofList, ascii_ofList]
      decide +kernel
    have host : (uriDecode ⟨0, ascii "sip:::ffff:102:304"⟩).map (fun u => u.host.val) = .ok decoded.host.val :=
      congrArg (Except.map _) found
    rw [misread, has.host] at host
    exact absurd (Except.ok.inj host) (by decide +kernel)

end Baresip.Re
