import Baresip.Library.Histories
import Baresip.Re.Conf

set_option linter.dupNamespace false

namespace Baresip.Module

open Library Re

/-- What a module exports. Its name leaves room for the extension in the buffer of `mod_find`. -/
structure ModExport where
  addr : Nat
  name : List Byte
  short : name.length ≤ 124
  deriving DecidableEq, Repr

/-- A loaded module; no two objects bear the same number. -/
structure Mod where
  id : Nat
  me : ModExport
  deriving DecidableEq, Repr

inductive ModError
  | EINVAL | EALREADY | ENOENT | ELIBBAD | ENOMEM
  | init (err : Int)
  deriving DecidableEq, Repr

def modExt : List Byte := ascii ".so"

def modFind (modl : List Mod) (name : List Byte) : Option Mod :=
  modl.find? fun m =>
    (⟨0, name⟩ : Pl).strcasecmp m.me.name || (reRegex name (m.me.name ++ modExt)).toOption.isSome

/-- What a program is linked with and what it finds when it runs: the static table, if there is one, what a
    file opens as and exports, and what the initialisation of a module answers. -/
structure Build where
  table : Option (List ModExport)
  dlopen : List Byte → Option (Option ModExport)
  init : Nat → ModExport → Int

/-- `next` is the number of the next object; a line of the configuration makes one at most. An application
    module whose object is not known is a null pointer. -/
structure State where
  next : Nat
  modl : List Mod
  modappl : List (Option Nat)
  deriving DecidableEq, Repr

variable (b : Build)

def modInit (s : State) (me : ModExport) : Except ModError Mod :=
  if b.init s.next me ≠ 0 then .error (.init (b.init s.next me)) else .ok ⟨s.next, me⟩

def modLoad (s : State) (name : List Byte) : Except ModError Mod :=
  match modFind s.modl name with
  | some _ => .error .EALREADY
  | none =>
    match b.dlopen name with
    | none => .error .ENOENT
    | some none => .error .ELIBBAD
    | some (some me) => modInit b s me

def modAdd (s : State) (me : Option ModExport) : Except ModError Mod :=
  match me with
  | none => .error .EINVAL
  | some me =>
    match modFind s.modl me.name with
    | some _ => .error .EALREADY
    | none => modInit b s me

def findModule (table : List ModExport) (pl : List Byte) : Option ModExport :=
  let name :=
    match reRegex pl (ascii "[^.]+.[^]*") with
    | .ok (name :: _) => name.val
    | _ => pl
  table.find? fun me => (⟨0, name⟩ : Pl).strcasecmp me.name

/-- The file is printed to a buffer of 256 bytes. -/
def modFile (modpath name : List Byte) : Option (List Byte) :=
  let file := modpath ++ chr '/' :: name
  if 255 < file.length then none else some (file.takeWhile (· != 0))

def loadStatic (s : State) (name : List Byte) : Option Mod :=
  match b.table with
  | none => none
  | some table => (modAdd b s (findModule table name)).toOption

def loadDynamic (modpath : List Byte) (s : State) (name : List Byte) : Except ModError Mod :=
  match modFile modpath name with
  | none => .error .ENOMEM
  | some file => modLoad b s file

/-- The module that a line loads, and the object that is handed out to the caller. -/
def loadModule (modpath : List Byte) (s : State) (name : List Byte) : Except ModError (Mod × Option Nat) :=
  match loadStatic b s name with
  | some m => .ok (m, none)
  | none => (loadDynamic b modpath s name).map fun m => (m, some m.id)

/-- The destructor of a module takes it out of the list. -/
def memDeref (modl : List Mod) : Option Nat → List Mod
  | none => modl
  | some id => modl.filter (·.id != id)

def moduleHandler (modpath : List Byte) (s : State) (val : List Byte) : State :=
  match loadModule b modpath s val with
  | .error _ => s
  | .ok (m, _) => { s with modl := s.modl ++ [m] }

def moduleTmpHandler (modpath : List Byte) (s : State) (val : List Byte) : State :=
  match loadModule b modpath s val with
  | .error _ => s
  | .ok (m, mod) => { s with modl := memDeref (s.modl ++ [m]) mod }

def moduleAppHandler (modpath : List Byte) (s : State) (val : List Byte) : State :=
  match loadModule b modpath s val with
  | .error _ => s
  | .ok (m, mod) => { s with modl := s.modl ++ [m], modappl := mod :: s.modappl }

inductive Key
  | module | moduleTmp | moduleApp
  deriving DecidableEq, Repr

def Key.name : Key → List Byte
  | .module => ascii "module"
  | .moduleTmp => ascii "module_tmp"
  | .moduleApp => ascii "module_app"

def Key.handler (modpath : List Byte) : Key → State → List Byte → State
  | .module => moduleHandler b modpath
  | .moduleTmp => moduleTmpHandler b modpath
  | .moduleApp => moduleAppHandler b modpath

def handle (modpath : List Byte) (s : State) (line : Key × List Byte) : State :=
  { line.1.handler b modpath s line.2 with next := s.next + 1 }

def modulePath (conf : List Byte) : List Byte :=
  match confGet conf (ascii "module_path") with
  | .ok path => path.val
  | .error _ => ascii "."

/-- The lines in the order in which they are handled, whatever their order in the file. -/
def moduleLines (conf : List Byte) : List (Key × List Byte) :=
  [Key.module, .moduleTmp, .moduleApp].flatMap fun key => (confApply conf key.name).map (key, ·)

def State.start : State := ⟨0, [], []⟩

def moduleInit (conf : List Byte) : State := (moduleLines conf).foldl (handle b (modulePath conf)) .start

def moduleAppUnload (s : State) : State := { s with modl := s.modappl.foldl memDeref s.modl, modappl := [] }

/-- The modules that are left of those a configuration file loads. -/
def remaining (file : List Byte) : List Mod := (moduleAppUnload (moduleInit b (confAlloc file))).modl

/-- What a line loads, if it is a `module` line. -/
def permanent (modpath : List Byte) (s : State) (line : Key × List Byte) : List Mod :=
  match line.1, loadModule b modpath s line.2 with
  | .module, .ok (m, _) => [m]
  | _, _ => []

/-- The modules that the `module` lines of a configuration file load. -/
def permanents (file : List Byte) : List Mod :=
  let conf := confAlloc file
  outputs (handle b (modulePath conf)) (permanent b (modulePath conf)) .start (moduleLines conf)

/-- A module by the line that loads it and its name. -/
def Mod.key (m : Mod) : Nat × List Byte := (m.id, m.me.name)

variable {b} {modpath : List Byte} {s : State}

/-- A line finds a module of the static table that is not loaded and that can be. -/
def StaticTakes (b : Build) (s : State) (name : List Byte) (me : ModExport) : Prop :=
  ∃ table, b.table = some table ∧ findModule table name = some me ∧ modFind s.modl me.name = none ∧
    b.init s.next me = 0

/-- A line finds the file of a module that is not loaded and that can be. -/
def DynamicTakes (b : Build) (modpath : List Byte) (s : State) (name : List Byte) (me : ModExport) : Prop :=
  ∃ file, modFile modpath name = some file ∧ modFind s.modl file = none ∧ b.dlopen file = some (some me) ∧
    b.init s.next me = 0

/-- The static table comes first. -/
def Takes (b : Build) (modpath : List Byte) (s : State) (name : List Byte) (me : ModExport) : Prop :=
  StaticTakes b s name me ∨ (∀ other, ¬ StaticTakes b s name other) ∧ DynamicTakes b modpath s name me

theorem modInit_ok {me : ModExport} {m : Mod} : modInit b s me = .ok m ↔ b.init s.next me = 0 ∧ m = ⟨s.next, me⟩ := by
  unfold modInit
  split_ifs with fails
  · simp [fails]
  · rw [not_not] at fails
    simp [fails, eq_comm]

theorem modAdd_ok {me : Option ModExport} {m : Mod} :
    modAdd b s me = .ok m ↔
      ∃ me', me = some me' ∧ modFind s.modl me'.name = none ∧ b.init s.next me' = 0 ∧ m = ⟨s.next, me'⟩ := by
  cases me with
  | none => simp [modAdd]
  | some me =>
    simp only [modAdd, Option.some.injEq, exists_eq_left']
    cases found : modFind s.modl me.name with
    | some other => simp
    | none => simp [modInit_ok]

theorem modLoad_ok {file : List Byte} {m : Mod} :
    modLoad b s file = .ok m ↔
      modFind s.modl file = none ∧ ∃ me, b.dlopen file = some (some me) ∧ b.init s.next me = 0 ∧ m = ⟨s.next, me⟩ := by
  unfold modLoad
  cases modFind s.modl file with
  | some other => simp
  | none =>
    rcases b.dlopen file with _ | _ | me
    · simp
    · simp
    · simp [modInit_ok]

theorem loadStatic_some {name : List Byte} {m : Mod} :
    loadStatic b s name = some m ↔ ∃ me, StaticTakes b s name me ∧ m = ⟨s.next, me⟩ := by
  unfold loadStatic StaticTakes
  cases b.table with
  | none => simp
  | some table =>
    have added : (modAdd b s (findModule table name)).toOption = some m ↔
        modAdd b s (findModule table name) = .ok m := by
      cases modAdd b s (findModule table name) <;> simp [Except.toOption]
    dsimp only
    rw [added, modAdd_ok]
    constructor
    · rintro ⟨me, found, fresh, done, rfl⟩
      exact ⟨me, ⟨table, rfl, found, fresh, done⟩, rfl⟩
    · rintro ⟨me, ⟨_, ⟨⟩, found, fresh, done⟩, rfl⟩
      exact ⟨me, found, fresh, done, rfl⟩

theorem loadDynamic_ok {name : List Byte} {m : Mod} :
    loadDynamic b modpath s name = .ok m ↔ ∃ me, DynamicTakes b modpath s name me ∧ m = ⟨s.next, me⟩ := by
  unfold loadDynamic DynamicTakes
  cases modFile modpath name with
  | none => simp
  | some file =>
    dsimp only
    rw [modLoad_ok]
    constructor
    · rintro ⟨fresh, me, opens, inits, rfl⟩
      exact ⟨me, ⟨file, rfl, fresh, opens, inits⟩, rfl⟩
    · rintro ⟨me, ⟨_, ⟨⟩, fresh, opens, inits⟩, rfl⟩
      exact ⟨fresh, me, opens, inits, rfl⟩

theorem loadStatic_none {name : List Byte} : loadStatic b s name = none ↔ ∀ me, ¬ StaticTakes b s name me := by
  constructor
  · intro none_ me takes
    have loaded := loadStatic_some.mpr ⟨me, takes, rfl⟩
    rw [none_] at loaded
    cases loaded
  · intro never
    apply Option.eq_none_iff_forall_ne_some.mpr
    intro m loaded
    obtain ⟨me, takes, -⟩ := loadStatic_some.mp loaded
    exact never me takes

/-- What a line loads, and that the object of a static module is not handed out. -/
theorem loadModule_ok {name : List Byte} {m : Mod} {mod : Option Nat} :
    loadModule b modpath s name = .ok (m, mod) ↔
      (mod = none ∧ ∃ me, StaticTakes b s name me ∧ m = ⟨s.next, me⟩) ∨
        (mod = some s.next ∧ (∀ me, ¬ StaticTakes b s name me) ∧
          ∃ me, DynamicTakes b modpath s name me ∧ m = ⟨s.next, me⟩) := by
  rw [← loadStatic_none, ← loadStatic_some, ← loadDynamic_ok]
  unfold loadModule
  cases static : loadStatic b s name with
  | some m' => simp [eq_comm, and_comm]
  | none =>
    have numbered : loadDynamic b modpath s name = .ok m → m.id = s.next := by
      intro loaded
      obtain ⟨me, -, rfl⟩ := loadDynamic_ok.mp loaded
      rfl
    cases dynamic : loadDynamic b modpath s name with
    | error err => simp [Except.map]
    | ok m' =>
      rw [dynamic] at numbered
      simp only [Except.map, Except.ok.injEq, Prod.mk.injEq, reduceCtorEq, and_false, true_and, false_or] at numbered ⊢
      constructor
      · rintro ⟨rfl, rfl⟩
        exact ⟨congrArg some (numbered rfl), rfl⟩
      · rintro ⟨rfl, rfl⟩
        exact ⟨rfl, congrArg some (numbered rfl)⟩

/-- A line loads one module or none. -/
theorem loadModule_takes {name : List Byte} {me : ModExport} :
    (∃ mod, loadModule b modpath s name = .ok (⟨s.next, me⟩, mod)) ↔ Takes b modpath s name me := by
  constructor
  · rintro ⟨mod, loaded⟩
    rcases loadModule_ok.mp loaded with ⟨-, me', takes, ⟨⟩⟩ | ⟨-, never, me', takes, ⟨⟩⟩
    · exact .inl takes
    · exact .inr ⟨never, takes⟩
  · rintro (takes | ⟨never, takes⟩)
    · exact ⟨none, loadModule_ok.mpr (.inl ⟨rfl, me, takes, rfl⟩)⟩
    · exact ⟨some s.next, loadModule_ok.mpr (.inr ⟨rfl, never, me, takes, rfl⟩)⟩

/-- Every object bears a number that has been given. -/
structure Given (s : State) : Prop where
  loaded : ∀ m ∈ s.modl, m.id < s.next
  apps : ∀ id, some id ∈ s.modappl → id < s.next

/-- What is left once the application modules are unloaded. -/
def kept (s : State) : List Mod := s.modl.filter fun m => some m.id ∉ s.modappl

theorem memDeref_all (modl : List Mod) (mods : List (Option Nat)) :
    mods.foldl memDeref modl = modl.filter fun m => some m.id ∉ mods := by
  induction mods generalizing modl with
  | nil => exact (List.filter_eq_self.mpr fun m _ => by simp).symm
  | cons mod mods ih =>
    rw [List.foldl_cons, ih]
    cases mod with
    | none => simp [memDeref]
    | some id =>
      rw [memDeref, List.filter_filter]
      apply List.filter_congr
      intro m _
      rw [Bool.and_comm]
      simp [bne, beq_eq_decide]

theorem unload_kept (s : State) : (moduleAppUnload s).modl = kept s := memDeref_all s.modl s.modappl

/-- What a line leaves behind: a `module` line what it loads, the others what they have no object of. -/
def stays (b : Build) (modpath : List Byte) (s : State) (line : Key × List Byte) : List Mod :=
  match loadModule b modpath s line.2 with
  | .error _ => []
  | .ok (m, mod) => if line.1 = .module ∨ mod = none then [m] else []

theorem Given.skip (given : Given s) : Given { s with next := s.next + 1 } :=
  ⟨fun m member => Nat.lt_succ_of_lt (given.loaded m member), fun id member => Nat.lt_succ_of_lt (given.apps id member)⟩

theorem Given.load (given : Given s) (me : ModExport) :
    Given { s with next := s.next + 1, modl := s.modl ++ [⟨s.next, me⟩] } := by
  refine ⟨?_, given.skip.apps⟩
  intro m member
  rcases List.mem_append.mp member with old | new
  · exact given.skip.loaded m old
  · rw [List.mem_singleton.mp new]
    exact Nat.lt_succ_self s.next

theorem Given.app (given : Given s) {mod : Option Nat} (own : mod = none ∨ mod = some s.next) :
    Given { s with next := s.next + 1, modappl := mod :: s.modappl } := by
  refine ⟨given.skip.loaded, ?_⟩
  intro id member
  rcases List.mem_cons.mp member with new | old
  · rcases own with rfl | rfl
    · cases new
    · cases new
      exact Nat.lt_succ_self _
  · exact given.skip.apps id old

theorem kept_load (given : Given s) (me : ModExport) :
    kept { s with modl := s.modl ++ [⟨s.next, me⟩] } = kept s ++ [⟨s.next, me⟩] := by
  have fresh : some s.next ∉ s.modappl := fun member => Nat.lt_irrefl _ (given.apps _ member)
  simp [kept, List.filter_append, fresh]

/-- An object that is taken back at once, or that is in the list of the applications, leaves nothing. -/
theorem kept_own (given : Given s) (me : ModExport) :
    memDeref (s.modl ++ [⟨s.next, me⟩]) (some s.next) = s.modl ∧
      kept { s with modl := s.modl ++ [⟨s.next, me⟩], modappl := some s.next :: s.modappl } = kept s := by
  have older : ∀ m ∈ s.modl, m.id ≠ s.next := fun m member => Nat.ne_of_lt (given.loaded m member)
  constructor
  · rw [memDeref, List.filter_append, List.filter_eq_self.mpr fun m member => by simpa using older m member]
    simp
  · unfold kept
    rw [List.filter_append]
    have last : [(⟨s.next, me⟩ : Mod)].filter (fun m => some m.id ∉ some s.next :: s.modappl) = [] := by simp
    dsimp only
    rw [last, List.append_nil]
    apply List.filter_congr
    intro m member
    simp [older m member]

theorem handle_step (given : Given s) (line : Key × List Byte) :
    Given (handle b modpath s line) ∧ kept (handle b modpath s line) = kept s ++ stays b modpath s line := by
  obtain ⟨key, name⟩ := line
  unfold stays
  cases loaded : loadModule b modpath s name with
  | error err =>
    have same : handle b modpath s (key, name) = { s with next := s.next + 1 } := by
      cases key <;> simp [handle, Key.handler, moduleHandler, moduleTmpHandler, moduleAppHandler, loaded]
    rw [same, List.append_nil]
    exact ⟨given.skip, rfl⟩
  | ok result =>
    obtain ⟨m, mod⟩ := result
    have made : ∃ me, m = ⟨s.next, me⟩ ∧ (mod = none ∨ mod = some s.next) := by
      rcases loadModule_ok.mp loaded with ⟨rfl, me, -, rfl⟩ | ⟨rfl, -, me, -, rfl⟩
      · exact ⟨me, rfl, .inl rfl⟩
      · exact ⟨me, rfl, .inr rfl⟩
    obtain ⟨me, rfl, own⟩ := made
    cases key with
    | module =>
      simp only [handle, Key.handler, moduleHandler, loaded, true_or, if_true]
      exact ⟨given.load me, kept_load given me⟩
    | moduleTmp =>
      simp only [handle, Key.handler, moduleTmpHandler, loaded, reduceCtorEq, false_or]
      rcases own with rfl | rfl
      · exact ⟨given.load me, kept_load given me⟩
      · rw [(kept_own given me).1]
        simp only [reduceCtorEq, if_false, List.append_nil]
        exact ⟨given.skip, rfl⟩
    | moduleApp =>
      simp only [handle, Key.handler, moduleAppHandler, loaded, reduceCtorEq, false_or]
      refine ⟨?_, ?_⟩
      · exact ⟨(given.load me).loaded, (given.app own).apps⟩
      · rcases own with rfl | rfl
        · have same : kept { s with next := s.next + 1, modl := s.modl ++ [⟨s.next, me⟩], modappl := none :: s.modappl } =
              kept { s with modl := s.modl ++ [⟨s.next, me⟩] } := by
            simp [kept]
          rw [same, if_pos rfl]
          exact kept_load given me
        · simp only [reduceCtorEq, if_false, List.append_nil]
          exact (kept_own given me).2

theorem kept_run (given : Given s) (lines : List (Key × List Byte)) :
    kept (lines.foldl (handle b modpath) s) = kept s ++ outputs (handle b modpath) (stays b modpath) s lines := by
  induction lines generalizing s with
  | nil => rw [List.foldl_nil, outputs, List.append_nil]
  | cons line lines ih =>
    obtain ⟨next, same⟩ := handle_step given line
    rw [List.foldl_cons, ih next, same, outputs, List.append_assoc]

/-- What is left of a configuration is what its lines leave behind. -/
theorem remaining_eq (b : Build) (file : List Byte) :
    remaining b file =
      outputs (handle b (modulePath (confAlloc file))) (stays b (modulePath (confAlloc file))) .start
        (moduleLines (confAlloc file)) := by
  have given : Given .start := ⟨by simp [State.start], by simp [State.start]⟩
  rw [remaining, unload_kept]
  exact kept_run given _

/-- No temporary and no application line finds a module of the static table that it can load. -/
def Unshared (b : Build) (s : State) (line : Key × List Byte) : Prop :=
  line.1 ≠ .module → ∀ me, ¬ StaticTakes b s line.2 me

/-- A `module` line finds a module of the same name in both builds, or none in either. -/
def Alike (b b' : Build) (modpath : List Byte) (s : State × State) (line : Key × List Byte) : Prop :=
  line.1 = .module → ∀ name, (∃ me, me.name = name ∧ Takes b modpath s.1 line.2 me) ↔
    ∃ me, me.name = name ∧ Takes b' modpath s.2 line.2 me

def Build.dynamic (b : Build) : Build := { b with table := none }

theorem stays_permanent (s : State) (line : Key × List Byte) :
    (permanent b modpath s line).length ≤ (stays b modpath s line).length ∧
      (stays b modpath s line = permanent b modpath s line ↔ Unshared b s line) := by
  obtain ⟨key, name⟩ := line
  unfold stays permanent Unshared
  cases loaded : loadModule b modpath s name with
  | error err =>
    have never (me : ModExport) : ¬ StaticTakes b s name me := by
      intro takes
      have done := (@loadModule_ok b modpath s name ⟨s.next, me⟩ none).mpr (.inl ⟨rfl, me, takes, rfl⟩)
      rw [loaded] at done
      cases done
    cases key <;> simp [never]
  | ok result =>
    obtain ⟨m, mod⟩ := result
    rcases loadModule_ok.mp loaded with ⟨rfl, me, takes, -⟩ | ⟨rfl, never, -⟩
    · cases key with
      | module => simp
      | moduleTmp => simpa using ⟨me, takes⟩
      | moduleApp => simpa using ⟨me, takes⟩
    · cases key <;> simp [never]

theorem permanent_cases (b : Build) (modpath : List Byte) (s : State) (name : List Byte) :
    (permanent b modpath s (.module, name) = [] ∧ ∀ me, ¬ Takes b modpath s name me) ∨
      ∃ me, permanent b modpath s (.module, name) = [⟨s.next, me⟩] ∧ ∀ me', Takes b modpath s name me' ↔ me' = me := by
  unfold permanent
  cases loaded : loadModule b modpath s name with
  | error err =>
    refine .inl ⟨rfl, ?_⟩
    intro me takes
    obtain ⟨mod, done⟩ := loadModule_takes.mpr takes
    rw [loaded] at done
    cases done
  | ok result =>
    obtain ⟨m, mod⟩ := result
    have made : ∃ me, m = ⟨s.next, me⟩ := by
      rcases loadModule_ok.mp loaded with ⟨-, me, -, rfl⟩ | ⟨-, -, me, -, rfl⟩
      · exact ⟨me, rfl⟩
      · exact ⟨me, rfl⟩
    obtain ⟨me, rfl⟩ := made
    refine .inr ⟨me, rfl, ?_⟩
    intro me'
    rw [← loadModule_takes, loaded]
    constructor
    · rintro ⟨mod', ⟨⟩⟩
      rfl
    · rintro rfl
      exact ⟨mod, rfl⟩

theorem permanent_alike (b b' : Build) (modpath : List Byte) {s : State × State} (together : s.1.next = s.2.next)
    (line : Key × List Byte) :
    (permanent b modpath s.1 line).map Mod.key = (permanent b' modpath s.2 line).map Mod.key ↔
      Alike b b' modpath s line := by
  obtain ⟨key, name⟩ := line
  unfold Alike
  cases key with
  | moduleTmp => simp [permanent]
  | moduleApp => simp [permanent]
  | module =>
    rcases permanent_cases b modpath s.1 name with ⟨none_, never⟩ | ⟨me, one, only⟩ <;>
      rcases permanent_cases b' modpath s.2 name with ⟨none', never'⟩ | ⟨me', one', only'⟩
    · simp [none_, none', never, never']
    · simp [none_, one', never, only']
    · simp [one, none', only, never']
    · simp only [one, one', only, only', List.map_cons, List.map_nil, Mod.key, together, exists_eq_right,
        forall_const, List.cons.injEq, Prod.mk.injEq, and_true, true_and]
      constructor
      · intro same x
        rw [same]
      · intro same
        exact ((same me.name).mp rfl).symm

theorem permanent_stamped (b : Build) (modpath : List Byte) (s : State) (line : Key × List Byte) :
    ∀ x ∈ (permanent b modpath s line).map Mod.key, x.1 = s.next := by
  obtain ⟨key, name⟩ := line
  intro x member
  cases key with
  | moduleTmp => simp [permanent] at member
  | moduleApp => simp [permanent] at member
  | module =>
    rcases permanent_cases b modpath s name with ⟨none_, -⟩ | ⟨me, one, -⟩
    · simp [none_] at member
    · simp only [one, List.map_cons, List.map_nil, List.mem_singleton] at member
      rw [member]
      rfl

theorem permanents_alike (b b' : Build) (modpath : List Byte) (lines : List (Key × List Byte)) :
    (outputs (handle b modpath) (permanent b modpath) .start lines).map Mod.key =
        (outputs (handle b' modpath) (permanent b' modpath) .start lines).map Mod.key ↔
      Along (sideBySide (handle b modpath) (handle b' modpath)) (Alike b b' modpath) (.start, .start) lines := by
  have keeps : ∀ (s : State × State) (line : Key × List Byte), s.1.next = s.2.next →
      (sideBySide (handle b modpath) (handle b' modpath) s line).1.next =
        (sideBySide (handle b modpath) (handle b' modpath) s line).2.next :=
    fun s line together => congrArg (· + 1) together
  have left : Stamped (sideBySide (handle b modpath) (handle b' modpath)) (fun s => s.1.next = s.2.next) Prod.fst
      (fun s => s.1.next) (fun s line => (permanent b modpath s.1 line).map Mod.key) :=
    ⟨keeps, fun _ _ => rfl, fun s line _ => permanent_stamped b modpath s.1 line⟩
  have right : Stamped (sideBySide (handle b modpath) (handle b' modpath)) (fun s => s.1.next = s.2.next) Prod.fst
      (fun s => s.1.next) (fun s line => (permanent b' modpath s.2 line).map Mod.key) := by
    refine ⟨keeps, fun _ _ => rfl, ?_⟩
    intro s line together
    rw [together]
    exact permanent_stamped b' modpath s.2 line
  have start : ((State.start, State.start) : State × State).1.next = ((State.start, State.start) : State × State).2.next :=
    rfl
  have alike := fun s line together => permanent_alike b b' modpath (s := s) together line
  have first : outputs (sideBySide (handle b modpath) (handle b' modpath))
      (fun s line => (permanent b modpath s.1 line).map Mod.key) (State.start, State.start) lines =
      outputs (handle b modpath) (fun s line => (permanent b modpath s line).map Mod.key) State.start lines :=
    outputs_left _ (fun s line => (permanent b modpath s line).map Mod.key) _
  have second : outputs (sideBySide (handle b modpath) (handle b' modpath))
      (fun s line => (permanent b' modpath s.2 line).map Mod.key) (State.start, State.start) lines =
      outputs (handle b' modpath) (fun s line => (permanent b' modpath s line).map Mod.key) State.start lines :=
    outputs_right _ (fun s line => (permanent b' modpath s line).map Mod.key) _
  rw [← outputs_map, ← outputs_map, ← first, ← second, outputs_eq_iff_of_stamped left right start]
  constructor
  · exact along_of_guarded (fun s line together same => ⟨keeps s line together, (alike s line together).mp same⟩) start
  · exact along_of_guarded (fun s line together same => ⟨keeps s line together, (alike s line together).mpr same⟩) start

/-- What is left is what the `module` lines load where no other line loads a module of the static table. -/
theorem remaining_iff (b : Build) (file : List Byte) :
    remaining b file = permanents b file ↔
      Along (handle b (modulePath (confAlloc file))) (Unshared b) .start (moduleLines (confAlloc file)) := by
  rw [remaining_eq, permanents, outputs_eq_iff fun s line => (stays_permanent s line).1]
  exact along_congr fun s line => (stays_permanent s line).2

theorem dynamic_remaining (b : Build) (file : List Byte) : remaining b.dynamic file = permanents b.dynamic file := by
  apply (remaining_iff b.dynamic file).mpr
  apply along_of_invariant (I := fun _ => True) (fun _ _ _ => trivial) _ trivial
  rintro s line - - me ⟨table, linked, -⟩
  cases linked

/-- The modules of a build with a static table and those of a build without one are those of their `module`
    lines, and are the same, if no temporary and no application line loads a module of the table and the
    `module` lines load the same in both builds. -/
theorem unloaded_alike_iff (b b' : Build) (file : List Byte) :
    (remaining b file = permanents b file ∧ remaining b'.dynamic file = permanents b'.dynamic file ∧
      (remaining b file).map Mod.key = (remaining b'.dynamic file).map Mod.key) ↔
      Along (handle b (modulePath (confAlloc file))) (Unshared b) .start (moduleLines (confAlloc file)) ∧
        Along (sideBySide (handle b (modulePath (confAlloc file))) (handle b'.dynamic (modulePath (confAlloc file))))
          (Alike b b'.dynamic (modulePath (confAlloc file))) (.start, .start) (moduleLines (confAlloc file)) := by
  have alike := permanents_alike b b'.dynamic (modulePath (confAlloc file)) (moduleLines (confAlloc file))
  rw [← remaining_iff, ← alike]
  constructor
  · rintro ⟨left, right, same⟩
    rw [left, right] at same
    exact ⟨left, same⟩
  · rintro ⟨left, same⟩
    refine ⟨left, dynamic_remaining b' file, ?_⟩
    rw [left, dynamic_remaining]
    exact same

def aModule (addr : Nat) : ModExport := ⟨addr, ascii "a", by decide⟩

def staticBuild : Build := ⟨some [aModule 0], fun _ => none, fun _ _ => 0⟩

def dynamicBuild : Build := ⟨none, fun file => if file = ascii "./a.so" then some (some (aModule 1)) else none, fun _ _ => 0⟩

/-- A temporary module that is linked statically stays. -/
theorem static_stays :
    (remaining staticBuild (ascii "module_tmp a.so")).map Mod.key = [(0, ascii "a")] ∧
      permanents staticBuild (ascii "module_tmp a.so") = [] ∧
      remaining dynamicBuild.dynamic (ascii "module_tmp a.so") = [] ∧
      permanents dynamicBuild.dynamic (ascii "module_tmp a.so") = [] := by
  rw [ascii_ofList, ascii_ofList]
  decide +kernel

end Baresip.Module
