import Baresip.Library.Cuts
import Baresip.Re.Pattern
import Baresip.Re.Regex

set_option linter.dupNamespace false

namespace Baresip.Icy

open Re Library

/-- `mb` is what has come of a header that is not complete, and `meta_` what has been read into the metadata
    block. `feed` and `updates` log what the audio and the video source are given. -/
structure Rst where
  tc : Bool
  mb : List Byte
  name : Option (List Byte)
  meta_ : Option (List Byte)
  headRecv : Bool
  metaint : Nat
  metasz : Nat
  bytec : Nat
  feed : List Byte
  updates : List (Option (List Byte) × Option (List Byte))
  inside : 0 < metasz → bytec < metasz

def Rst.connected : Rst := ⟨true, [], none, none, false, 0, 0, 0, [], [], nofun⟩

def rstAudioFeed (rst : Rst) (buf : List Byte) : Rst := { rst with feed := rst.feed ++ buf }

def rstVideoUpdate (rst : Rst) (meta_ : Option (List Byte)) : Rst :=
  { rst with updates := rst.updates ++ [(rst.name, meta_)] }

def Rst.readMeta (rst : Rst) (data : List Byte) : Rst :=
  let meta_ := rst.meta_.map fun read => read ++ data
  let bytec := rst.bytec + data.length
  if full : rst.metasz ≤ bytec then
    rstVideoUpdate { rst with meta_ := meta_, metasz := 0, bytec := 0, inside := nofun } meta_
  else { rst with meta_ := meta_, bytec := bytec, inside := fun _ => Nat.lt_of_not_le full }

def Rst.readAudio (rst : Rst) (between : rst.metasz = 0) (data : List Byte) : Rst :=
  let rst' := rstAudioFeed rst data
  { rst' with bytec := rst.bytec + data.length, inside := fun some_ => absurd between (Nat.ne_of_gt some_) }

def Rst.readLength (rst : Rst) (b : Byte) : Rst :=
  { rst with metasz := b.toNat * 16, bytec := 0, meta_ := some [], inside := id }

/-- One round of the loop over a buffer that is not empty. -/
def round (rst : Rst) (b : Byte) (mb : List Byte) : Rst × List Byte :=
  if between : rst.metasz = 0 then
    if rst.bytec < rst.metaint then
      let n := min (mb.length + 1) (rst.metaint - rst.bytec)
      (rst.readAudio between ((b :: mb).take n), (b :: mb).drop n)
    else (rst.readLength b, mb)
  else
    let n := min (mb.length + 1) (rst.metasz - rst.bytec)
    (rst.readMeta ((b :: mb).take n), (b :: mb).drop n)

/-- Each round reads a byte or more, so there are as many rounds as bytes at most. -/
def rounds (rst : Rst) : Nat → List Byte → Rst
  | 0, _ => rst
  | _, [] => rst
  | left + 1, b :: mb =>
    let (rst, mb) := round rst b mb
    rounds rst left mb

def headerEnd : List Byte := ascii "[^\r\n]1\r\n\r\n"

def headerName (hdr : List Byte) : Option (List Byte) :=
  match reRegex hdr (ascii "icy-name:[ \t]*[^\r\n]+\r\n") with
  | .ok [_, name] => some name.val
  | _ => none

def headerMetaint (hdr : List Byte) : Nat :=
  match reRegex hdr (ascii "icy-metaint:[ \t]*[0-9]+\r\n") with
  | .ok [_, metaint] => metaint.u32.toNat
  | _ => 0

/-- A response without a metadata interval ends the connection. -/
def header (rst : Rst) (hdr rest : List Byte) : Rst :=
  let rst := { rst with
    mb := [], headRecv := true, name := (headerName hdr).or rst.name, metaint := headerMetaint hdr }
  if rst.metaint = 0 then { rst with tc := false }
  else rounds (rstVideoUpdate rst none) rest.length rest

def recvHandler (rst : Rst) (mb : List Byte) : Rst :=
  if rst.headRecv then rounds rst mb.length mb
  else
    let mb := rst.mb ++ mb
    match reRegex mb headerEnd with
    | .ok (eoh :: _) => header rst (mb.take (eoh.off + 5)) (mb.drop (eoh.off + 5))
    | _ => { rst with mb := mb }

def recv (rst : Rst) (mb : List Byte) : Rst := if rst.tc then recvHandler rst mb else rst

/-- What one byte after the header does. -/
def byte (rst : Rst) (b : Byte) : Rst :=
  if between : rst.metasz = 0 then
    if rst.bytec < rst.metaint then rst.readAudio between [b] else rst.readLength b
  else rst.readMeta [b]

theorem readAudio_append {rst : Rst} (between : rst.metasz = 0) (xs ys : List Byte) :
    (rst.readAudio between xs).readAudio between ys = rst.readAudio between (xs ++ ys) := by
  simp [Rst.readAudio, rstAudioFeed, Nat.add_assoc]

theorem readAudio_nil {rst : Rst} (between : rst.metasz = 0) : rst.readAudio between [] = rst := by
  simp [Rst.readAudio, rstAudioFeed]

theorem audio_bytes {rst : Rst} (between : rst.metasz = 0) {data : List Byte}
    (room : rst.bytec + data.length ≤ rst.metaint) : data.foldl byte rst = rst.readAudio between data := by
  induction data generalizing rst with
  | nil => exact (readAudio_nil between).symm
  | cons b data ih =>
    rw [List.length_cons] at room
    have first : byte rst b = rst.readAudio between [b] := by
      rw [byte, dif_pos between, if_pos (by omega)]
    have rest : (rst.readAudio between [b]).bytec + data.length ≤ rst.metaint := by
      show rst.bytec + 1 + data.length ≤ rst.metaint
      omega
    rw [List.foldl_cons, first, @ih (rst.readAudio between [b]) between rest, readAudio_append, List.singleton_append]

theorem readMeta_append {rst : Rst} {xs : List Byte} (room : rst.bytec + xs.length < rst.metasz) (ys : List Byte) :
    (rst.readMeta xs).readMeta ys = rst.readMeta (xs ++ ys) := by
  have part : ¬ rst.metasz ≤ rst.bytec + xs.length := Nat.not_le_of_lt room
  unfold Rst.readMeta
  simp [part, Nat.add_assoc, Function.comp_def]

theorem readMeta_nil {rst : Rst} (block : rst.metasz ≠ 0) : rst.readMeta [] = rst := by
  have part : ¬ rst.metasz ≤ rst.bytec := Nat.not_le_of_lt (rst.inside (Nat.pos_of_ne_zero block))
  simp [Rst.readMeta, part]

theorem meta_bytes {rst : Rst} (block : rst.metasz ≠ 0) {data : List Byte}
    (room : rst.bytec + data.length ≤ rst.metasz) : data.foldl byte rst = rst.readMeta data := by
  induction data generalizing rst with
  | nil => exact (readMeta_nil block).symm
  | cons b data ih =>
    rw [List.length_cons] at room
    have first : byte rst b = rst.readMeta [b] := by rw [byte, dif_neg block]
    rw [List.foldl_cons, first]
    by_cases last : data = []
    · rw [last, List.foldl_nil]
    · have more := List.length_pos_iff.mpr last
      have part : rst.bytec + [b].length < rst.metasz := by
        rw [List.length_singleton]
        omega
      have open_ : rst.readMeta [b] = { rst with
          meta_ := rst.meta_.map (· ++ [b]), bytec := rst.bytec + 1, inside := fun _ => part } := by
        rw [Rst.readMeta, dif_neg (Nat.not_le_of_lt part)]
        rfl
      have same := @ih (rst.readMeta [b]) (by rw [open_]; exact block) (by rw [open_]; dsimp only; omega)
      rw [same, readMeta_append part, List.singleton_append]

theorem round_bytes (rst : Rst) (b : Byte) (mb : List Byte) :
    ∃ taken, taken ≠ [] ∧ taken ++ (round rst b mb).2 = b :: mb ∧ (round rst b mb).1 = taken.foldl byte rst := by
  have some_ : ∀ n, 0 < n → (b :: mb).take n ≠ [] := fun n positive => by
    simp [Nat.ne_of_gt positive]
  unfold round
  by_cases between : rst.metasz = 0
  · rw [dif_pos between]
    by_cases audio : rst.bytec < rst.metaint
    · rw [if_pos audio]
      refine ⟨(b :: mb).take (min (mb.length + 1) (rst.metaint - rst.bytec)), some_ _ (by omega),
        List.take_append_drop .., ?_⟩
      apply (audio_bytes between _).symm
      rw [List.length_take]
      omega
    · rw [if_neg audio]
      refine ⟨[b], List.cons_ne_nil _ _, rfl, ?_⟩
      rw [List.foldl_cons, List.foldl_nil, byte, dif_pos between, if_neg audio]
  · rw [dif_neg between]
    have open_ := rst.inside (Nat.pos_of_ne_zero between)
    refine ⟨(b :: mb).take (min (mb.length + 1) (rst.metasz - rst.bytec)), some_ _ (by omega),
      List.take_append_drop .., ?_⟩
    apply (meta_bytes between _).symm
    rw [List.length_take]
    omega

theorem rounds_bytes (rst : Rst) {left : Nat} {mb : List Byte} (enough : mb.length ≤ left) :
    rounds rst left mb = mb.foldl byte rst := by
  induction left generalizing rst mb with
  | zero =>
    obtain rfl := List.length_eq_zero_iff.mp (Nat.le_zero.mp enough)
    rfl
  | succ left ih =>
    cases mb with
    | nil => rfl
    | cons b mb =>
      obtain ⟨taken, some_, whole, result⟩ := round_bytes rst b mb
      have less : (round rst b mb).2.length ≤ left := by
        have lengths := congrArg List.length whole
        have positive := List.length_pos_iff.mpr some_
        rw [List.length_append, List.length_cons] at lengths
        rw [List.length_cons] at enough
        omega
      calc
        rounds rst (left + 1) (b :: mb) = rounds (round rst b mb).1 left (round rst b mb).2 := rfl
        _ = (round rst b mb).2.foldl byte (round rst b mb).1 := @ih (round rst b mb).1 _ less
        _ = (b :: mb).foldl byte rst := by rw [result, ← List.foldl_append, whole]

/-- The last byte of a header line and the empty line behind it. -/
def headerEndItems : List Item :=
  .cls true false [⟨chr '\r', chr '\r'⟩, ⟨chr '\n', chr '\n'⟩] 1 1 :: (ascii "\r\n\r\n").map .lit

theorem headerEnd_parses : Regex.Parses headerEnd headerEndItems := by
  have opens : Regex.Opens (ascii "[^\r\n]1") true false [⟨chr '\r', chr '\r'⟩, ⟨chr '\n', chr '\n'⟩] 1 1 :=
    .ofList fun _ _ _ _ _ _ _ _ _ => rfl
  exact (Regex.Parses.of_lits (by decide)).cls opens

theorem headerEnd_append {off : Nat} {c : Byte} {p : List Byte}
    (settled : ∀ e, matchItems headerEndItems off (c :: p) ≠ .error (.stop e)) (more : List Byte) :
    matchItems headerEndItems off (c :: p ++ more) = matchItems headerEndItems off (c :: p) := by
  rw [headerEndItems, List.cons_append, matchItems_one, matchItems_one]
  rw [headerEndItems, matchItems_one] at settled
  split at settled
  · rename_i inside
    rw [if_pos inside, if_pos inside, lits_append]
    intro e stopped
    rw [stopped] at settled
    exact settled e rfl
  · rename_i outside
    rw [if_neg outside, if_neg outside]

theorem headerEnd_inside {off : Nat} {p : List Byte} {eoh : Pl} {rest : List Pl}
    (hit : matchItems headerEndItems off p = .ok (eoh :: rest)) : eoh.off = off ∧ 5 ≤ p.length := by
  cases p with
  | nil => contradiction
  | cons c p =>
    rw [headerEndItems, matchItems_one] at hit
    split at hit
    · cases behind : matchItems ((ascii "\r\n\r\n").map .lit) (off + 1) p with
      | error e =>
        rw [behind] at hit
        contradiction
      | ok captures =>
        rw [behind] at hit
        obtain ⟨rfl, -⟩ := List.cons.inj (Except.ok.inj hit)
        exact ⟨rfl, Nat.succ_le_succ (lits_length behind).1⟩
    · contradiction

/-- The end of the header is where it is however much has come behind it. -/
theorem headerEnd_found {mb : List Byte} {eoh : Pl} {rest : List Pl}
    (found : reRegex mb headerEnd = .ok (eoh :: rest)) (more : List Byte) :
    reRegex (mb ++ more) headerEnd = .ok (eoh :: rest) ∧ eoh.off + 5 ≤ mb.length := by
  have some_ : headerEnd ≠ [] := by decide
  obtain ⟨before, after, rfl, text, hit, missed⟩ := (reRegexFrom_ok headerEnd_parses some_ 0 mb _).mp found
  have same : ∀ i, i ≤ before.length → (∀ e, matchItems headerEndItems (0 + i) ((before ++ after).drop i) ≠ .error (.stop e)) →
      matchItems headerEndItems (0 + i) ((before ++ after ++ more).drop i) =
        matchItems headerEndItems (0 + i) ((before ++ after).drop i) := by
    intro i inside settled
    have more_text : (before ++ after).drop i ≠ [] := by
      have positive := List.length_pos_iff.mpr text
      intro empty
      rw [List.drop_eq_nil_iff, List.length_append] at empty
      omega
    rw [List.drop_append_of_le_length (by rw [List.length_append]; omega)]
    obtain ⟨c, p, cons⟩ := List.exists_cons_of_ne_nil more_text
    rw [cons] at settled ⊢
    exact headerEnd_append settled more
  constructor
  · apply (reRegexFrom_ok headerEnd_parses some_ 0 _ _).mpr
    refine ⟨before, after ++ more, List.append_assoc .., fun empty => text (List.append_eq_nil_iff.mp empty).1, ?_, ?_⟩
    · have here := same before.length (Nat.le_refl _) (by
        rw [List.drop_left, hit]
        exact nofun)
      rwa [List.append_assoc, List.drop_left, List.drop_left, hit] at here
    · intro i less
      have there := same i (Nat.le_of_lt less) (by
        rw [missed i less]
        exact nofun)
      rw [there, missed i less]
  · obtain ⟨at_, inside⟩ := headerEnd_inside hit
    rw [at_, List.length_append]
    omega

theorem byte_flags (rst : Rst) (b : Byte) : (byte rst b).tc = rst.tc ∧ (byte rst b).headRecv = rst.headRecv := by
  unfold byte Rst.readMeta
  split
  · split <;> exact ⟨rfl, rfl⟩
  · dsimp only
    split <;> exact ⟨rfl, rfl⟩

theorem bytes_flags (rst : Rst) (data : List Byte) :
    (data.foldl byte rst).tc = rst.tc ∧ (data.foldl byte rst).headRecv = rst.headRecv := by
  induction data generalizing rst with
  | nil => exact ⟨rfl, rfl⟩
  | cons b data ih =>
    obtain ⟨tc, head⟩ := ih (byte rst b)
    exact ⟨tc.trans (byte_flags rst b).1, head.trans (byte_flags rst b).2⟩

theorem recv_bytes {rst : Rst} (tc : rst.tc = true) (head : rst.headRecv = true) (data : List Byte) :
    recv rst data = data.foldl byte rst := by
  rw [recv, if_pos tc, recvHandler, if_pos head]
  exact rounds_bytes rst (Nat.le_refl _)

theorem recv_closed {rst : Rst} (closed : rst.tc = false) (data : List Byte) : recv rst data = rst := by
  rw [recv, if_neg (by simp [closed])]

theorem recv_rounds {rst : Rst} (tc : rst.tc = true) (head : rst.headRecv = true) (a b : List Byte) :
    recv (rounds rst a.length a) b = rounds rst (a ++ b).length (a ++ b) := by
  obtain ⟨tc', head'⟩ := bytes_flags rst a
  rw [rounds_bytes rst (Nat.le_refl _), rounds_bytes rst (Nat.le_refl _), recv_bytes (tc'.trans tc) (head'.trans head),
    List.foldl_append]

theorem header_append {rst : Rst} (tc : rst.tc = true) (hdr a b : List Byte) :
    recv (header rst hdr a) b = header rst hdr (a ++ b) := by
  unfold header
  dsimp only
  split
  · rw [recv_closed rfl]
  · apply recv_rounds
    · exact tc
    · rfl

/-- The search for the end of the header in all that has come. -/
def search (rst : Rst) (mb : List Byte) : Rst :=
  match reRegex mb headerEnd with
  | .ok (eoh :: _) => header rst (mb.take (eoh.off + 5)) (mb.drop (eoh.off + 5))
  | _ => { rst with mb := mb }

theorem recv_search {rst : Rst} (tc : rst.tc = true) (head : rst.headRecv = false) (mb : List Byte) :
    recv rst mb = search rst (rst.mb ++ mb) := by
  have searched : recvHandler rst mb = search rst (rst.mb ++ mb) := if_neg (by simp [head])
  rw [recv, if_pos tc, searched]

theorem recv_append (rst : Rst) (a b : List Byte) : recv (recv rst a) b = recv rst (a ++ b) := by
  cases tc : rst.tc with
  | false => rw [recv_closed tc, recv_closed tc, recv_closed tc]
  | true =>
    cases head : rst.headRecv with
    | true =>
      obtain ⟨tc', head'⟩ := bytes_flags rst a
      rw [recv_bytes tc head, recv_bytes tc head, recv_bytes (tc'.trans tc) (head'.trans head), List.foldl_append]
    | false =>
      rw [recv_search tc head a, recv_search tc head (a ++ b), search]
      split
      · rename_i eoh rest found
        obtain ⟨later, inside⟩ := headerEnd_found found b
        rw [search, ← List.append_assoc, later]
        dsimp only
        rw [List.take_append_of_le_length inside, List.drop_append_of_le_length inside]
        exact header_append tc _ _ b
      · -- the header goes on with the next segment
        have next : ∀ mb, recv { rst with mb := mb } b = search rst (mb ++ b) :=
          fun mb => @recv_search { rst with mb := mb } tc head b
        rw [next, List.append_assoc]

theorem recv_segments (segs : List (List Byte)) : segs.foldl recv .connected = recv .connected segs.flatten :=
  foldl_chunks recv_append rfl segs

/-- The decoder is fed the same bytes, and the same updates are shown, however a response is cut into
    segments. -/
theorem segments_agree (segs segs' : List (List Byte)) (same : segs.flatten = segs'.flatten) :
    (segs.foldl recv .connected).feed = (segs'.foldl recv .connected).feed ∧
      (segs.foldl recv .connected).updates = (segs'.foldl recv .connected).updates := by
  rw [recv_segments, recv_segments, same]
  exact ⟨rfl, rfl⟩

/-- A header whose end is cut, four bytes of audio and the length of a block. -/
theorem segments_agree_cut :
    ([ascii "icy-metaint:4\r\n\r", ascii "\nabcd\x01"].foldl recv .connected).feed =
        ([ascii "icy-metaint:4\r\n\r\nab", ascii "cd\x01"].foldl recv .connected).feed ∧
      ([ascii "icy-metaint:4\r\n\r", ascii "\nabcd\x01"].foldl recv .connected).updates =
        ([ascii "icy-metaint:4\r\n\r\nab", ascii "cd\x01"].foldl recv .connected).updates :=
  segments_agree [ascii "icy-metaint:4\r\n\r", ascii "\nabcd\x01"] [ascii "icy-metaint:4\r\n\r\nab", ascii "cd\x01"]
    (by decide)

example :
    ([ascii "icy-metaint:4\r\n\r", ascii "\nabcd"].foldl recv .connected).feed = ascii "abcd" := by
  rw [ascii_ofList, ascii_ofList, ascii_ofList]
  decide

end Baresip.Icy
