import Baresip.Re.Pattern

set_option linter.dupNamespace false

namespace Baresip.Re

/-- A decoded URI over what its parts are: slices of a text, or of a buffer. -/
structure Uri (S : Type) where
  scheme : S
  user : Option S
  password : Option S
  host : S
  port : BitVec 16
  params : S
  headers : S
  deriving DecidableEq, Repr

namespace Uri

variable {S T : Type}

def map (f : S → T) (u : Uri S) : Uri T :=
  ⟨f u.scheme, u.user.map f, u.password.map f, f u.host, u.port, f u.params, f u.headers⟩

def slices (u : Uri S) : List S :=
  u.scheme :: u.host :: u.params :: u.headers :: (u.user.toList ++ u.password.toList)

@[simp] theorem scheme_map (f : S → T) (u : Uri S) : (u.map f).scheme = f u.scheme := rfl

theorem slices_map (f : S → T) (u : Uri S) : (u.map f).slices = u.slices.map f := by
  cases u with
  | mk scheme user password host port params headers =>
    cases user <;> cases password <;> rfl

theorem scheme_mem (u : Uri S) : u.scheme ∈ u.slices := List.mem_cons_self

end Uri

def Pl.shift (base : Nat) (pl : Pl) : Pl := { pl with off := base + pl.off }

def decodeHostport (hostport : Pl) : Except Errno (Pl × Pl) :=
  match reRegex hostport.val (ascii "\\[[0-9a-f:]+\\][:]*[0-9]*") with
  | .ok [host, _, port] => .ok (host.shift hostport.off, port.shift hostport.off)
  | _ =>
    match reRegex hostport.val (ascii "[^:]+[:]*[0-9]*") with
    | .ok [host, _, port] => .ok (host.shift hostport.off, port.shift hostport.off)
    | .ok _ => .error .EINVAL
    | .error e => .error e

def uriPort (port : Pl) : BitVec 16 := if port.val = [] then 0 else port.u32.setWidth 16

/-- The first attempt of `uri_decode`, at a URI with a user. -/
def uriDecodeUser (pl : Pl) : Option (Uri Pl) :=
  match reRegex pl.val (ascii "[^:]+:[^@:]*[:]*[^@]*@[^;? ]+[^?]*[^]*") with
  | .ok [scheme, user, _, password, hostport, params, headers] =>
    match decodeHostport (hostport.shift pl.off) with
    | .ok (host, port) =>
      some ⟨scheme.shift pl.off, some (user.shift pl.off), some (password.shift pl.off), host, uriPort port,
        params.shift pl.off, headers.shift pl.off⟩
    | .error _ => none
  | _ => none

def uriDecode (pl : Pl) : Except Errno (Uri Pl) :=
  match uriDecodeUser pl with
  | some uri => .ok uri
  | none =>
    match reRegex pl.val (ascii "[^:]+:[^;? ]+[^?]*[^]*") with
    | .ok [scheme, hostport, params, headers] =>
      match decodeHostport (hostport.shift pl.off) with
      | .ok (host, port) =>
        .ok ⟨scheme.shift pl.off, none, none, host, uriPort port, params.shift pl.off, headers.shift pl.off⟩
      | .error e => .error e
    | .ok _ => .error .EINVAL
    | .error e => .error e

structure SipAddr where
  dname : Option Pl
  auri : Pl
  uri : Uri Pl
  params : Option Pl
  deriving DecidableEq, Repr

def unlessEmpty (pl : Pl) : Option Pl := if pl.val = [] then none else some pl

def sipAddrDecode (pl : Pl) : Except Errno SipAddr :=
  match reRegex pl.val (ascii "[~ \t\r\n<]*[ \t\r\n]*<[^>]+>[^]*") with
  | .ok [dname, _, auri, params] =>
    (uriDecode (auri.shift pl.off)).map fun uri =>
      ⟨unlessEmpty (dname.shift pl.off), auri.shift pl.off, uri, unlessEmpty (params.shift pl.off)⟩
  | _ =>
    match reRegex pl.val (ascii "[^;]+[^]*") with
    | .ok [auri, params] =>
      (uriDecode (auri.shift pl.off)).map fun uri =>
        ⟨none, auri.shift pl.off, uri, some (params.shift pl.off)⟩
    | _ => .error .EBADMSG

example : (uriDecode ⟨2, ascii "sip:a@b:5061;x"⟩).map (·.host) = .ok ⟨8, ascii "b"⟩ := by
  rw [ascii_ofList, ascii_ofList]
  decide +kernel

theorem map_ok {A B : Type} {x : Except Errno A} {f : A → B} {b : B} (done : x.map f = .ok b) :
    ∃ a, x = .ok a ∧ f a = b := by
  cases x with
  | error e => contradiction
  | ok a => exact ⟨a, rfl, Except.ok.inj done⟩

/-! Every slice is cut from the text that was decoded. -/

section
variable {holds : Pl → Prop} (cut : Regex.Cut holds)
include cut

theorem captures_hold {text : Pl} {expr : List Byte} {captures : List Pl} (whole : holds text)
    (found : reRegex text.val expr = .ok captures) : ∀ pl ∈ captures, holds (pl.shift text.off) :=
  reRegexFrom_holds (cut.shift text.off) (by exact whole) found

theorem decodeHostport_holds {hostport : Pl} {r : Pl × Pl} (whole : holds hostport)
    (decoded : decodeHostport hostport = .ok r) : holds r.1 := by
  unfold decodeHostport at decoded
  split at decoded
  · rename_i host _ port found
    obtain rfl := Except.ok.inj decoded
    exact captures_hold cut whole found host List.mem_cons_self
  · split at decoded
    · rename_i host _ port found
      obtain rfl := Except.ok.inj decoded
      exact captures_hold cut whole found host List.mem_cons_self
    · contradiction
    · contradiction

theorem uriDecodeUser_holds {pl : Pl} {uri : Uri Pl} (whole : holds pl)
    (decoded : uriDecodeUser pl = some uri) : ∀ s ∈ uri.slices, holds s := by
  unfold uriDecodeUser at decoded
  split at decoded
  · rename_i scheme user _ password hostport params headers found
    have all := captures_hold cut whole found
    simp only [List.forall_mem_cons] at all
    obtain ⟨scheme_, user_, -, password_, hostport_, params_, headers_, -⟩ := all
    split at decoded
    · rename_i host port at_
      obtain rfl := Option.some.inj decoded
      simp only [Uri.slices, Option.toList_some, List.forall_mem_cons, List.singleton_append]
      exact ⟨scheme_, decodeHostport_holds cut hostport_ at_, params_, headers_, user_, password_,
        fun _ none_ => absurd none_ List.not_mem_nil⟩
    · contradiction
  · contradiction

theorem uriDecode_holds {pl : Pl} {uri : Uri Pl} (whole : holds pl)
    (decoded : uriDecode pl = .ok uri) : ∀ s ∈ uri.slices, holds s := by
  unfold uriDecode at decoded
  split at decoded
  · rename_i uri' user
    obtain rfl := Except.ok.inj decoded
    exact uriDecodeUser_holds cut whole user
  · split at decoded
    · rename_i scheme hostport params headers found
      have all := captures_hold cut whole found
      simp only [List.forall_mem_cons] at all
      obtain ⟨scheme_, hostport_, params_, headers_, -⟩ := all
      split at decoded
      · rename_i host port at_
        obtain rfl := Except.ok.inj decoded
        simp only [Uri.slices, Option.toList_none, List.forall_mem_cons, List.append_nil]
        exact ⟨scheme_, decodeHostport_holds cut hostport_ at_, params_, headers_,
          fun _ none_ => absurd none_ List.not_mem_nil⟩
      · contradiction
    · contradiction
    · contradiction

omit cut in
theorem unlessEmpty_some {pl pl' : Pl} (some_ : unlessEmpty pl = some pl') : pl' = pl := by
  unfold unlessEmpty at some_
  split at some_
  · contradiction
  · exact (Option.some.inj some_).symm

theorem sipAddrDecode_holds {pl : Pl} {addr : SipAddr} (whole : holds pl) (decoded : sipAddrDecode pl = .ok addr) :
    (∀ s ∈ addr.uri.slices, holds s) ∧ ∀ dname, addr.dname = some dname → holds dname := by
  unfold sipAddrDecode at decoded
  split at decoded
  · rename_i dname _ auri params found
    have all := captures_hold cut whole found
    simp only [List.forall_mem_cons] at all
    obtain ⟨dname_, -, auri_, -, -⟩ := all
    obtain ⟨uri, at_, rfl⟩ := map_ok decoded
    refine ⟨uriDecode_holds cut auri_ at_, fun dname' eq => ?_⟩
    rw [unlessEmpty_some eq]
    exact dname_
  · split at decoded
    · rename_i auri params found
      obtain ⟨uri, at_, rfl⟩ := map_ok decoded
      have auri_ := captures_hold cut whole found auri List.mem_cons_self
      exact ⟨uriDecode_holds cut auri_ at_, nofun⟩
    · contradiction

end

theorem uriDecode_inside {bound : Nat} {pl : Pl} {uri : Uri Pl} (whole : Regex.Inside bound pl)
    (decoded : uriDecode pl = .ok uri) : ∀ s ∈ uri.slices, Regex.Inside bound s :=
  uriDecode_holds (.inside bound) whole decoded

theorem sipAddrDecode_inside {bound : Nat} {pl : Pl} {addr : SipAddr} (whole : Regex.Inside bound pl)
    (decoded : sipAddrDecode pl = .ok addr) : ∀ s ∈ addr.uri.slices, Regex.Inside bound s :=
  (sipAddrDecode_holds (.inside bound) whole decoded).1

end Baresip.Re
