import Mathlib.Algebra.Order.BigOperators.Group.List
import Mathlib.Tactic.Linarith
import Mathlib.Logic.Function.Basic
import NemeaSupervisor.Inclusion
import NemeaSupervisor.Run

/-!
# The paths of backup files

`create_backup_file_path` makes a number of the absolute path of the template, and the
supervisors of a host keep their backup files under these numbers. A path is a list of bytes,
and a `char` is signed.
-/

namespace NemeaSupervisor

open CText

def supTmpDir : String := "/tmp/sup_tmp_dir"

def backupFileSufix : String := "_sup_backup_file.xml"

/-- All letters of the path multiplied by their index, from the index `x` on. -/
def addLetters : Nat → UInt32 → List UInt8 → UInt32
  | _, letterSum, [] => letterSum
  | x, letterSum, c :: path =>
    addLetters (x + 1) (letterSum + c.toInt8.toInt32.toUInt32 * UInt32.ofNat (x + 1)) path

def letterSum (absoluteConfigFilePath : List UInt8) : UInt32 :=
  addLetters 0 0 absoluteConfigFilePath

/-- `create_backup_file_path` for what `get_absolute_file_path` returns. The sum is printed with
`"%d"`. -/
def createBackupFilePath (absoluteConfigFilePath : Option (List UInt8)) : Option String :=
  absoluteConfigFilePath.map fun path =>
    supTmpDir ++ "/" ++ toString (letterSum path).toInt32.toInt ++ backupFileSufix

example : createBackupFilePath (some "/etc/nemea/supervisor_config_template.xml".toUTF8.toList) =
    some "/tmp/sup_tmp_dir/89264_sup_backup_file.xml" := by decide +kernel

/-! ## The sum -/

/-- The sum of the letters, each multiplied by its place, without any overflow. -/
def weightedSum (path : List UInt8) : Int :=
  (path.zipIdx.map fun (c, x) => c.toInt8.toInt * (x + 1)).sum

theorem addLetters_eq (x : Nat) (sum : UInt32) (path : List UInt8) :
    (addLetters x sum path).toInt32 = sum.toInt32 +
      Int32.ofInt ((path.zipIdx x).map fun (c, x) => c.toInt8.toInt * (x + 1)).sum := by
  induction path generalizing x sum with
  | nil => simp [addLetters]
  | cons c path ih =>
    have hletter : (sum + c.toInt8.toInt32.toUInt32 * UInt32.ofNat (x + 1)).toInt32 =
        sum.toInt32 + Int32.ofInt (c.toInt8.toInt * (x + 1)) := by
      rw [Int32.ofInt_mul, Int32.ofInt_int8ToInt]
      rfl
    rw [addLetters, ih, hletter, List.zipIdx_cons, List.map_cons, List.sum_cons, Int32.ofInt_add,
      Int32.add_assoc]

/-- A letter of a path of less than 4096 bytes, multiplied by its place. -/
theorem letter_range {path : List UInt8} (h : path.length < pathMax) {v : Int}
    (hv : v ∈ path.zipIdx.map fun (c, x) => c.toInt8.toInt * (x + 1)) :
    -524160 ≤ v ∧ v ≤ 524160 := by
  obtain ⟨⟨c, x⟩, hmem, rfl⟩ := List.mem_map.mp hv
  have hx : x < path.length := (List.mem_zipIdx' hmem).1
  have hplace : (x : Int) + 1 ≤ 4095 := by
    rw [pathMax] at h
    omega
  have hlow : -128 ≤ c.toInt8.toInt := c.toInt8.le_toInt
  have hhigh : c.toInt8.toInt < 128 := c.toInt8.toInt_lt
  simp only
  constructor
  · nlinarith
  · nlinarith

/-- A path of less than 4096 bytes does not make the sum overflow. -/
theorem weightedSum_range {path : List UInt8} (h : path.length < pathMax) :
    -2147483648 ≤ weightedSum path ∧ weightedSum path ≤ 2147483647 := by
  have hlow := List.card_nsmul_le_sum _ (-524160) fun v hv => (letter_range h hv).1
  have hhigh := List.sum_le_card_nsmul _ 524160 fun v hv => (letter_range h hv).2
  rw [List.length_map, List.length_zipIdx, nsmul_eq_mul] at hlow hhigh
  rw [pathMax] at h
  rw [weightedSum]
  omega

/-- What is printed is the sum itself. -/
theorem letterSum_toInt {path : List UInt8} (h : path.length < pathMax) :
    (letterSum path).toInt32.toInt = weightedSum path := by
  obtain ⟨hlow, hhigh⟩ := weightedSum_range h
  have hzero : UInt32.toInt32 0 = 0 := rfl
  rw [letterSum, addLetters_eq, ← weightedSum, hzero, Int32.zero_add, Int32.toInt_ofInt,
    show Int32.size = 4294967296 from rfl]
  exact Int.bmod_eq_of_le (by omega) (by omega)

/-- Two paths share a backup file if and only if they have the same sum. -/
theorem createBackupFilePath_inj {path path' : List UInt8} (h : path.length < pathMax)
    (h' : path'.length < pathMax) :
    createBackupFilePath (some path) = createBackupFilePath (some path') ↔
      weightedSum path = weightedSum path' := by
  simp only [createBackupFilePath, Option.map_some, letterSum_toInt h, letterSum_toInt h',
    Option.some.injEq]
  constructor
  · intro heq
    have hprinted := (String.append_right_inj _).mp ((String.append_left_inj _).mp heq)
    obtain ⟨hlow, hhigh⟩ := weightedSum_range h
    obtain ⟨hlow', hhigh'⟩ := weightedSum_range h'
    rw [← atoi_toString hlow hhigh, ← atoi_toString hlow' hhigh', hprinted]
  · intro heq
    rw [heq]

/-! ## The backup files of a host -/

/-- A supervisor with some template ends and saves a backup, or it starts and looks for one, which
can be read and deleted or not. -/
inductive BackupAction where
  | save (path : List UInt8)
  | start (path : List UInt8) (readable deletable : Bool)
  deriving DecidableEq, Repr

def BackupAction.path : BackupAction → List UInt8
  | .save path => path
  | .start path _ _ => path

/-- The template of the supervisor that has saved each backup file, and who has loaded whose. -/
structure BackupFiles where
  savedFor : String → Option (List UInt8)
  loads : List (List UInt8 × List UInt8)

def BackupFiles.init : BackupFiles := ⟨fun _ => none, []⟩

/-- `generate_backup_config_file` writes over the file at its path. `reload_configuration` loads
the file at its path on the initial load, and deletes it then. -/
def backupStep (st : BackupFiles) : BackupAction → BackupFiles
  | .save path =>
    match createBackupFilePath (some path) with
    | none => st
    | some backupFileName =>
      { st with savedFor := Function.update st.savedFor backupFileName (some path) }
  | .start path readable deletable =>
    match createBackupFilePath (some path) with
    | none => st
    | some backupFileName =>
      match st.savedFor backupFileName with
      | none => st
      | some owner =>
        if readable then
          { savedFor :=
              if deletable then Function.update st.savedFor backupFileName none else st.savedFor
            loads := st.loads ++ [(path, owner)] }
        else st

/-- Whoever has loaded a backup has loaded its own. -/
def LoadsOwn (st : BackupFiles) : Prop := ∀ load ∈ st.loads, load.1 = load.2

/-- Each file has been saved for a template with this file. -/
structure BackupInv (path path' : List UInt8) (st : BackupFiles) : Prop where
  saved : ∀ name owner, st.savedFor name = some owner →
    createBackupFilePath (some owner) = some name ∧ (owner = path ∨ owner = path')
  loads : LoadsOwn st

theorem BackupInv.loads_append {path path' p owner : List UInt8} {st : BackupFiles} {file : String}
    (h : BackupInv path path' st)
    (hdistinct : createBackupFilePath (some path) ≠ createBackupFilePath (some path'))
    (hp : p = path ∨ p = path') (hfile : createBackupFilePath (some p) = some file)
    (hsaved : st.savedFor file = some owner) (savedFor : String → Option (List UInt8)) :
    LoadsOwn ⟨savedFor, st.loads ++ [(p, owner)]⟩ := by
  obtain ⟨howner, hwho⟩ := h.saved file owner hsaved
  refine List.forall_mem_append.mpr ⟨h.loads, List.forall_mem_singleton.mpr ?_⟩
  have hsame := hfile.trans howner.symm
  rcases hp with rfl | rfl
  · rcases hwho with rfl | rfl
    · rfl
    · exact absurd hsame hdistinct
  · rcases hwho with rfl | rfl
    · exact absurd hsame.symm hdistinct
    · rfl

theorem BackupInv.step {path path' : List UInt8} {st : BackupFiles} (h : BackupInv path path' st)
    (hdistinct : createBackupFilePath (some path) ≠ createBackupFilePath (some path'))
    {a : BackupAction} (ha : a.path = path ∨ a.path = path') :
    BackupInv path path' (backupStep st a) := by
  obtain ⟨file, hfile⟩ : ∃ file, createBackupFilePath (some a.path) = some file := ⟨_, rfl⟩
  cases a with
  | save p =>
    simp only [BackupAction.path] at hfile ha
    simp only [backupStep, hfile]
    refine ⟨fun name owner hname => ?_, h.loads⟩
    simp only at hname
    by_cases heq : name = file
    · rw [heq, Function.update_self] at hname
      rw [heq, ← Option.some.inj hname]
      exact ⟨hfile, ha⟩
    · rw [Function.update_of_ne heq] at hname
      exact h.saved name owner hname
  | start p readable deletable =>
    simp only [BackupAction.path] at hfile ha
    simp only [backupStep, hfile]
    cases hsaved : st.savedFor file with
    | none => exact h
    | some owner =>
      simp only
      split_ifs
      · refine ⟨fun name owner' hname => ?_, ?_⟩
        · simp only at hname
          by_cases heq : name = file
          · rw [heq, Function.update_self] at hname
            cases hname
          · rw [Function.update_of_ne heq] at hname
            exact h.saved name owner' hname
        · exact h.loads_append hdistinct ha hfile hsaved _
      · exact ⟨h.saved, h.loads_append hdistinct ha hfile hsaved _⟩
      · exact h

/-- Where two templates share a file, a supervisor with one loads the backup of the other. -/
theorem not_loadsOwn {path path' : List UInt8} (hne : path ≠ path')
    (hsame : createBackupFilePath (some path) = createBackupFilePath (some path')) :
    ¬ LoadsOwn (Run.run backupStep .init [.save path, .start path' true true]) := by
  obtain ⟨file, hfile⟩ : ∃ file, createBackupFilePath (some path') = some file := ⟨_, rfl⟩
  have hloads : (Run.run backupStep .init [.save path, .start path' true true]).loads =
      [(path', path)] := by
    simp only [Run.run_cons, Run.run_nil, backupStep, hsame, hfile, Function.update_self, if_true]
    rfl
  intro h
  exact hne (h (path', path) (by rw [hloads]; exact List.mem_singleton_self _)).symm

/-- Two templates have different backup files if and only if the letters of their paths have
different sums, and only then no supervisor ever loads the backup of the other. -/
theorem createBackupFilePath_bound (path path' : List UInt8) (h : path.length < pathMax)
    (h' : path'.length < pathMax) (hne : path ≠ path') :
    (createBackupFilePath (some path) ≠ createBackupFilePath (some path') ↔
      weightedSum path ≠ weightedSum path') ∧
    ((∀ as : List BackupAction, (∀ a ∈ as, a.path = path ∨ a.path = path') →
        LoadsOwn (Run.run backupStep .init as)) ↔ weightedSum path ≠ weightedSum path') := by
  have hinj := createBackupFilePath_inj h h'
  refine ⟨hinj.not, ?_⟩
  rw [Ne, ← hinj]
  constructor
  · intro hown hsame
    refine not_loadsOwn hne hsame (hown _ fun a ha => ?_)
    simp only [List.mem_cons, List.not_mem_nil, or_false] at ha
    rcases ha with rfl | rfl
    · exact .inl rfl
    · exact .inr rfl
  · intro hdistinct as has
    have hinit : BackupInv path path' .init :=
      ⟨fun _ _ hname => (nomatch hname), List.forall_mem_nil _⟩
    exact (Run.along_invariant (fun st a hst ha => hst.step hdistinct ha) hinit
      (Run.along_of_forall backupStep has _)).loads

def middlePath : List UInt8 := "/etc/nemea/middle.xml".toUTF8.toList

def branchPath : List UInt8 := "/etc/nemea/branch.xml".toUTF8.toList

def defaultPath : List UInt8 := "/etc/nemea/supervisor_config_template.xml".toUTF8.toList

theorem createBackupFilePath_bound_default :
    createBackupFilePath (some defaultPath) ≠ createBackupFilePath (some branchPath) ∧
      ∀ as : List BackupAction, (∀ a ∈ as, a.path = defaultPath ∨ a.path = branchPath) →
        LoadsOwn (Run.run backupStep .init as) := by
  have hbound := createBackupFilePath_bound defaultPath branchPath (by decide +kernel)
    (by decide +kernel) (by decide +kernel)
  have hsum : weightedSum defaultPath ≠ weightedSum branchPath := by decide +kernel
  exact ⟨hbound.1.mpr hsum, hbound.2.mpr hsum⟩

/-- Both paths have the same sum. -/
theorem not_createBackupFilePath_bound :
    ¬ ∀ path path' : List UInt8, path.length < pathMax → path'.length < pathMax → path ≠ path' →
      createBackupFilePath (some path) ≠ createBackupFilePath (some path') := by
  intro h
  exact h middlePath branchPath (by decide +kernel) (by decide +kernel) (by decide +kernel)
    (by decide +kernel)

end NemeaSupervisor
