import HeadsUp.Core.Models
import Mathlib.Data.List.Induction
import Mathlib.Data.List.TakeWhile

/-!
# The command line (`server/main.cpp`)

`main` takes its options from left to right, each with a value that `std::stoi`
reads, and a later option overrides an earlier one. What it does with the
arguments is compared with what the usage text says of them: times to wait for a
player are in seconds, and have to be positive.
-/

namespace HeadsUp.Server
open HeadsUp.Core

/-! ### `std::stoi` -/

/-- `isspace`: a blank, or one of the codes from tab to carriage return. -/
def isSpace (c : Char) : Bool := c.toNat == 32 || (9 ≤ c.toNat && c.toNat ≤ 13)

def takeSign : List Char → ℤ × List Char
  | '-' :: rest => (-1, rest)
  | '+' :: rest => (1, rest)
  | rest => (1, rest)

/-- The number at the start of the text; what follows it is not looked at. -/
def stoi (text : String) : Except Exn ℤ :=
  let (sign, rest) := takeSign (text.toList.dropWhile isSpace)
  let digits := rest.takeWhile Char.isDigit
  if digits = [] then .error (.invalidArgument "stoi")
  else
    let value := sign * Nat.ofDigitChars 10 digits 0
    if -2 ^ 31 ≤ value ∧ value < 2 ^ 31 then .ok value else .error (.outOfRange "stoi")

theorem stoi_range {text : String} {value : ℤ} (h : stoi text = .ok value) :
    -2 ^ 31 ≤ value ∧ value < 2 ^ 31 := by
  simp only [stoi] at h
  split_ifs at h with hempty hrange
  obtain rfl := Except.ok.inj h
  exact hrange

theorem isSpace_of_isDigit {c : Char} (h : c.isDigit = true) : isSpace c = false := by
  simp only [Char.isDigit, Bool.and_eq_true, decide_eq_true_eq] at h
  have hlo : 48 ≤ c.toNat := h.1
  simp only [isSpace, Bool.or_eq_false_iff, Bool.and_eq_false_iff, beq_eq_false_iff_ne, ne_eq,
    decide_eq_false_iff_not]
  omega

theorem takeSign_of_isDigit {c : Char} (h : c.isDigit = true) (cs : List Char) :
    takeSign (c :: cs) = (1, c :: cs) := by
  rw [takeSign] <;>
  · intro rest heq
    obtain ⟨rfl, -⟩ := List.cons.inj heq
    exact absurd h (by decide)

/-- A number that fits is read back from its decimal text. -/
theorem stoi_repr {n : ℕ} (h : n < 2 ^ 31) : stoi n.repr = .ok n := by
  have hdigits : ∀ c ∈ Nat.toDigits 10 n, c.isDigit = true :=
    fun c hc => Nat.isDigit_of_mem_toDigits (by decide) (by decide) hc
  have hvalue : Nat.ofDigitChars 10 (Nat.toDigits 10 n) 0 = n := Nat.ofDigitChars_ten_toDigits
  rw [stoi, Nat.toList_repr]
  cases hlist : Nat.toDigits 10 n with
  | nil => exact absurd hlist Nat.toDigits_ne_nil
  | cons c cs =>
    rw [hlist] at hdigits hvalue
    have hc := hdigits c List.mem_cons_self
    have hall : (c :: cs).takeWhile Char.isDigit = c :: cs := List.takeWhile_eq_self_iff.mpr hdigits
    rw [List.dropWhile_cons_of_neg (by simp [isSpace_of_isDigit hc]), takeSign_of_isDigit hc]
    simp only [hall, hvalue, one_mul]
    rw [if_neg (List.cons_ne_nil c cs), if_pos (by omega)]

/-! ### Options -/

structure ServerConfig where
  port : UInt16
  actionTimeoutMs : ℤ
  disconnectGraceTimeMs : ℤ
  removalTimeoutMs : ℤ
  deriving DecidableEq, Repr

def ServerConfig.initial : ServerConfig where
  port := 8080
  actionTimeoutMs := 30000
  disconnectGraceTimeMs := 30000
  removalTimeoutMs := 60000

inductive ServerOption where
  | port | ampleTime | disconnectGraceTime | actionTimeout | removalTimeout
  deriving DecidableEq, Repr

def optionOf (arg : String) : Option ServerOption :=
  if arg = "--port" then some .port
  else if arg = "--ample-time" then some .ampleTime
  else if arg = "--disconnect-grace-time" then some .disconnectGraceTime
  else if arg = "--action-timeout" then some .actionTimeout
  else if arg = "--removal-timeout" then some .removalTimeout
  else none

/-- `stoi(..) * 1000`; a product outside of `int` is whatever the machine leaves
there, `undef`. -/
def timesThousand (undef : ℤ → Int32) (value : ℤ) : ℤ :=
  if -2 ^ 31 ≤ value * 1000 ∧ value * 1000 < 2 ^ 31 then value * 1000 else (undef value).toInt

namespace ServerOption

def name : ServerOption → String
  | port => "--port"
  | ampleTime => "--ample-time"
  | disconnectGraceTime => "--disconnect-grace-time"
  | actionTimeout => "--action-timeout"
  | removalTimeout => "--removal-timeout"

def invalid : ServerOption → String
  | port => "Invalid port value: "
  | ampleTime | disconnectGraceTime => "Invalid disconnect grace time value: "
  | actionTimeout => "Invalid action timeout value: "
  | removalTimeout => "Invalid removal timeout value: "

def set (undef : ℤ → Int32) (option : ServerOption) (text : String) (config : ServerConfig) :
    Except String ServerConfig :=
  match stoi text with
  | .error _ => .error (option.invalid ++ text ++ "\n")
  | .ok value =>
    match option with
    | port =>
      if value < 1 ∨ 65535 < value then .error "Port must be between 1 and 65535\n"
      else .ok { config with port := UInt16.ofInt value }
    | ampleTime => .ok { config with disconnectGraceTimeMs := timesThousand undef value }
    | disconnectGraceTime => .ok { config with disconnectGraceTimeMs := value }
    | actionTimeout =>
      if value < minActionTimeoutMs ∨ maxActionTimeoutMs < value then
        .error ("Action timeout must be between " ++ toString minActionTimeoutMs ++ " and "
          ++ toString maxActionTimeoutMs ++ " ms\n")
      else .ok { config with actionTimeoutMs := value }
    | removalTimeout =>
      -- a number of milliseconds, as the message says
      if value < 1000 then .error "Removal timeout must be at least 1000 ms\n"
      else .ok { config with removalTimeoutMs := value }

end ServerOption

/-- What `main` goes on to do: leave with a status and what it has written to the
two streams, or serve. -/
inductive Start where
  | exit (status : ℕ) (out err : String)
  | serve (config : ServerConfig)
  deriving DecidableEq, Repr

def usage (argv0 : String) : String :=
  "Usage: " ++ argv0 ++ " [--port <port>] [--ample-time <seconds>] [--removal-timeout <seconds>]"
    ++ " [--action-timeout <ms>]\n"
    ++ "Defaults: port=8080, ample-time=30s, removal-timeout=60s, action-timeout=30000ms\n"

/-- An argument that is no option with a value after it. -/
def stray (argv0 arg : String) : Start :=
  if arg = "--help" then .exit 0 (usage argv0) ""
  else .exit 1 "" ("Unknown argument: " ++ arg ++ "\n")

def readArgs (argv0 : String) (undef : ℤ → Int32) (config : ServerConfig) : List String → Start
  | [] => .serve config
  | [arg] => stray argv0 arg
  | arg :: text :: rest =>
    match optionOf arg with
    | none => stray argv0 arg
    | some option =>
      match option.set undef text config with
      | .error err => .exit 1 "" err
      | .ok config => readArgs argv0 undef config rest

def main (argv0 : String) (undef : ℤ → Int32) (args : List String) : Start :=
  readArgs argv0 undef .initial args

/-! ### What the arguments say -/

structure Setting where
  option : ServerOption
  value : ℤ
  deriving DecidableEq, Repr

/-- The arguments as a list of options, each with a number. -/
def settingsOf : List String → Option (List Setting)
  | [] => some []
  | [_] => none
  | arg :: text :: rest =>
    match optionOf arg, stoi text, settingsOf rest with
    | some option, .ok value, some settings => some (⟨option, value⟩ :: settings)
    | _, _, _ => none

namespace Setting

/-- The number in milliseconds; the usage text gives these two in seconds. -/
def ms (s : Setting) : ℤ :=
  match s.option with
  | .ampleTime | .removalTimeout => 1000 * s.value
  | _ => s.value

/-- A port, an action timeout within its limits, a time that is positive and
fits an `int` of milliseconds. -/
def InRange (s : Setting) : Prop :=
  match s.option with
  | .port => 1 ≤ s.value ∧ s.value ≤ 65535
  | .actionTimeout => minActionTimeoutMs ≤ s.value ∧ s.value ≤ maxActionTimeoutMs
  | _ => 0 < s.ms ∧ s.ms < 2 ^ 31

instance : (s : Setting) → Decidable s.InRange
  | ⟨.port, _⟩ => inferInstanceAs (Decidable (_ ∧ _))
  | ⟨.ampleTime, _⟩ => inferInstanceAs (Decidable (_ ∧ _))
  | ⟨.disconnectGraceTime, _⟩ => inferInstanceAs (Decidable (_ ∧ _))
  | ⟨.actionTimeout, _⟩ => inferInstanceAs (Decidable (_ ∧ _))
  | ⟨.removalTimeout, _⟩ => inferInstanceAs (Decidable (_ ∧ _))

def setsGrace (s : Setting) : Bool :=
  s.option == .ampleTime || s.option == .disconnectGraceTime

def setsRemoval (s : Setting) : Bool := s.option == .removalTimeout

end Setting

def lastMs (kind : Setting → Bool) (default : ℤ) (settings : List Setting) : ℤ :=
  ((settings.filter kind).getLast?.map Setting.ms).getD default

def PortWithinLimits (config : ServerConfig) : Prop :=
  1 ≤ config.port.toNat ∧ config.port.toNat ≤ 65535

def ActionWithinLimits (config : ServerConfig) : Prop :=
  minActionTimeoutMs ≤ config.actionTimeoutMs ∧ config.actionTimeoutMs ≤ maxActionTimeoutMs

structure ConfigMeans (settings : List Setting) (config : ServerConfig) : Prop where
  port : PortWithinLimits config
  action : ActionWithinLimits config
  gracePos : 0 < config.disconnectGraceTimeMs
  grace : config.disconnectGraceTimeMs = lastMs Setting.setsGrace 30000 settings
  removalPos : 0 < config.removalTimeoutMs
  removal : config.removalTimeoutMs = lastMs Setting.setsRemoval 60000 settings

/-- What is served is what the arguments say, and arguments that say something
in range are served. -/
structure MeansWhatItSays (argv0 : String) (undef : ℤ → Int32) (args : List String) : Prop where
  accepted : ∀ config, main argv0 undef args = .serve config →
    ∃ settings, settingsOf args = some settings ∧ ConfigMeans settings config
  documented : ∀ settings, settingsOf args = some settings → (∀ s ∈ settings, s.InRange) →
    ∃ config, main argv0 undef args = .serve config

/-! ### What the loop does with a setting -/

namespace Setting

def Passes (s : Setting) : Prop :=
  match s.option with
  | .port | .actionTimeout => s.InRange
  | .removalTimeout => 1000 ≤ s.value
  | _ => True

def stored (undef : ℤ → Int32) (s : Setting) : ℤ :=
  match s.option with
  | .ampleTime => timesThousand undef s.value
  | _ => s.value

def apply (undef : ℤ → Int32) (config : ServerConfig) (s : Setting) : ServerConfig :=
  match s.option with
  | .port => { config with port := UInt16.ofInt s.value }
  | .ampleTime | .disconnectGraceTime =>
    { config with disconnectGraceTimeMs := s.stored undef }
  | .actionTimeout => { config with actionTimeoutMs := s.stored undef }
  | .removalTimeout => { config with removalTimeoutMs := s.stored undef }

end Setting

def configOf (undef : ℤ → Int32) (settings : List Setting) : ServerConfig :=
  settings.foldl (Setting.apply undef) .initial

section Loop
variable (argv0 : String) (undef : ℤ → Int32)

theorem settingsOf_cons_iff {arg text : String} {rest : List String} {option : ServerOption}
    (hoption : optionOf arg = some option) {settings : List Setting} :
    settingsOf (arg :: text :: rest) = some settings ↔
      ∃ value others, stoi text = .ok value ∧ settingsOf rest = some others ∧
        settings = ⟨option, value⟩ :: others := by
  rw [settingsOf, hoption]
  cases stoi text with
  | error e => simp
  | ok value =>
    cases settingsOf rest with
    | none => simp
    | some others => simp [eq_comm]

theorem optionOf_name (option : ServerOption) : optionOf option.name = some option := by
  cases option <;> decide

def commandLine (settings : List Setting) : List String :=
  settings.flatMap fun s => [s.option.name, toString s.value]

theorem settingsOf_commandLine {settings : List Setting}
    (h : ∀ s ∈ settings, 0 ≤ s.value ∧ s.value < 2 ^ 31) :
    settingsOf (commandLine settings) = some settings := by
  induction settings with
  | nil => rfl
  | cons s settings ih =>
    obtain ⟨⟨hlo, hhi⟩, hrest⟩ := List.forall_mem_cons.mp h
    obtain ⟨option, value⟩ := s
    obtain ⟨n, rfl⟩ := Int.eq_ofNat_of_zero_le hlo
    have hfits : (n : ℤ) < 2 ^ 31 := hhi
    have hvalue : stoi (toString (n : ℤ)) = .ok (n : ℤ) := stoi_repr (by omega)
    exact (settingsOf_cons_iff (optionOf_name option)).mpr ⟨n, settings, hvalue, ih hrest, rfl⟩

theorem checked_ok_iff {P : Prop} [Decidable P] {err : String} {config config' : ServerConfig} :
    (if P then Except.error err else .ok config) = .ok config' ↔ ¬ P ∧ config' = config := by
  split_ifs with h <;> simp [h, eq_comm]

theorem set_ok_iff {option : ServerOption} {text : String} {config config' : ServerConfig} :
    option.set undef text config = .ok config' ↔
      ∃ value, stoi text = .ok value ∧ Setting.Passes ⟨option, value⟩ ∧
        config' = Setting.apply undef config ⟨option, value⟩ := by
  rw [ServerOption.set]
  cases stoi text with
  | error e => simp
  | ok value =>
    simp only [Except.ok.injEq, exists_eq_left']
    cases option with
    | port | actionTimeout =>
      simp only [checked_ok_iff, not_or, not_lt]
      rfl
    | removalTimeout =>
      simp only [checked_ok_iff, not_lt]
      rfl
    | ampleTime | disconnectGraceTime =>
      simp [Setting.Passes, Setting.apply, Setting.stored, eq_comm]

theorem stray_ne_serve (arg : String) (config : ServerConfig) :
    stray argv0 arg ≠ .serve config := by
  rw [stray]
  split_ifs <;> nofun

/-- The loop serves when the arguments are settings that pass, with each of them
stored in turn. -/
theorem readArgs_serve_iff {args : List String} {config config' : ServerConfig} :
    readArgs argv0 undef config args = .serve config' ↔
      ∃ settings, settingsOf args = some settings ∧ (∀ s ∈ settings, s.Passes) ∧
        config' = settings.foldl (Setting.apply undef) config := by
  fun_induction readArgs argv0 undef config args with
  | case1 config => simp [settingsOf, eq_comm]
  | case2 config arg => simp [settingsOf, stray_ne_serve]
  | case3 config arg text rest hoption => simp [settingsOf, hoption, stray_ne_serve]
  | case4 config arg text rest option hoption err hset =>
    refine iff_of_false nofun fun hh => ?_
    obtain ⟨settings, hsettings, hpasses, -⟩ := hh
    obtain ⟨value, others, hvalue, -, rfl⟩ := (settingsOf_cons_iff hoption).mp hsettings
    have hok : option.set undef text config = .ok (Setting.apply undef config ⟨option, value⟩) :=
      (set_ok_iff undef).mpr ⟨value, hvalue, hpasses _ List.mem_cons_self, rfl⟩
    rw [hset] at hok
    cases hok
  | case5 config arg text rest option hoption next hset ih =>
    obtain ⟨value, hvalue, hpasses, rfl⟩ := (set_ok_iff undef).mp hset
    rw [ih]
    constructor
    · intro hh
      obtain ⟨settings, hsettings, hall, heq⟩ := hh
      exact ⟨_, (settingsOf_cons_iff hoption).mpr ⟨value, settings, hvalue, hsettings, rfl⟩,
        List.forall_mem_cons.mpr ⟨hpasses, hall⟩, heq⟩
    · intro hh
      obtain ⟨settings, hsettings, hall, heq⟩ := hh
      obtain ⟨value', others, hvalue', hothers, rfl⟩ := (settingsOf_cons_iff hoption).mp hsettings
      obtain rfl := Except.ok.inj (hvalue.symm.trans hvalue')
      exact ⟨others, hothers, (List.forall_mem_cons.mp hall).2, heq⟩

/-! ### The configuration that is served -/

theorem foldl_last {σ ε α : Type*} {step : σ → ε → σ} {field : σ → α} {writes : ε → Bool}
    {value : ε → α} (h : ∀ s e, field (step s e) = if writes e then value e else field s)
    (s : σ) (es : List ε) :
    field (es.foldl step s) = ((es.filter writes).getLast?.map value).getD (field s) := by
  induction es using List.reverseRecOn with
  | nil => rfl
  | append_singleton es e ih =>
    rw [List.foldl_concat, h, List.filter_append]
    split_ifs with hwrites
    · simp [hwrites]
    · simp [hwrites, ih]

variable (settings : List Setting)

theorem configOf_grace :
    (configOf undef settings).disconnectGraceTimeMs
      = ((settings.filter Setting.setsGrace).getLast?.map (Setting.stored undef)).getD 30000 := by
  refine foldl_last (fun config s => ?_) ServerConfig.initial settings
  obtain ⟨option, value⟩ := s
  cases option <;> rfl

theorem configOf_removal :
    (configOf undef settings).removalTimeoutMs
      = ((settings.filter Setting.setsRemoval).getLast?.map (Setting.stored undef)).getD 60000 := by
  refine foldl_last (fun config s => ?_) ServerConfig.initial settings
  obtain ⟨option, value⟩ := s
  cases option <;> rfl

theorem toNat_port {value : ℤ} (hlo : 1 ≤ value) (hhi : value ≤ 65535) :
    (UInt16.ofInt value).toNat = value.toNat := by
  have hmod : value % 2 ^ 16 = value := Int.emod_eq_of_lt (by omega) (by omega)
  rw [UInt16.ofInt, hmod, UInt16.toNat_ofNat']
  omega

theorem configOf_port (h : ∀ s ∈ settings, s.Passes) :
    PortWithinLimits (configOf undef settings) := by
  refine List.foldlRecOn (motive := PortWithinLimits) settings _ ⟨by decide, by decide⟩
    fun config hconfig s hs => ?_
  have hpasses := h s hs
  obtain ⟨option, value⟩ := s
  cases option with
  | port =>
    obtain ⟨hlo, hhi⟩ : 1 ≤ value ∧ value ≤ 65535 := hpasses
    rw [PortWithinLimits, Setting.apply, toNat_port hlo hhi]
    omega
  | _ => exact hconfig

theorem configOf_action (h : ∀ s ∈ settings, s.Passes) :
    ActionWithinLimits (configOf undef settings) := by
  refine List.foldlRecOn (motive := ActionWithinLimits) settings _ ⟨by decide, by decide⟩
    fun config hconfig s hs => ?_
  have hpasses := h s hs
  obtain ⟨option, value⟩ := s
  cases option with
  | actionTimeout => exact hpasses
  | _ => exact hconfig

end Loop

/-- A time of an `int` of seconds or milliseconds is stored as what it is when
that is in range. -/
theorem stored_iff (undef : ℤ → Int32) {s : Setting} (h : s.setsGrace = true)
    (hrange : -2 ^ 31 ≤ s.value ∧ s.value < 2 ^ 31) :
    0 < s.stored undef ∧ s.stored undef = s.ms ↔ s.InRange := by
  obtain ⟨option, value⟩ := s
  cases option with
  | ampleTime =>
    have hlo := (undef value).le_toInt
    have hhi := (undef value).toInt_lt
    simp only [Setting.stored, Setting.ms, Setting.InRange, timesThousand] at hrange ⊢
    split_ifs with hfits <;> omega
  | disconnectGraceTime =>
    simp only [Setting.stored, Setting.ms, Setting.InRange, and_true] at hrange ⊢
    omega
  | _ => cases h

theorem settingsOf_range {args : List String} {settings : List Setting}
    (h : settingsOf args = some settings) :
    ∀ s ∈ settings, -2 ^ 31 ≤ s.value ∧ s.value < 2 ^ 31 := by
  fun_induction settingsOf args generalizing settings with
  | case1 =>
    obtain rfl := Option.some.inj h
    simp
  | case2 arg => cases h
  | case3 arg text rest option value others hothers hvalue hoption ih =>
    obtain rfl := Option.some.inj h
    exact List.forall_mem_cons.mpr ⟨stoi_range hvalue, ih hothers⟩
  | case4 => cases h

theorem main_commandLine_iff (argv0 : String) (undef : ℤ → Int32) {settings : List Setting}
    (h : ∀ s ∈ settings, 0 ≤ s.value ∧ s.value < 2 ^ 31) (config : ServerConfig) :
    main argv0 undef (commandLine settings) = .serve config ↔
      (∀ s ∈ settings, s.Passes) ∧ config = configOf undef settings := by
  rw [main, readArgs_serve_iff, settingsOf_commandLine h]
  simp [configOf]

/-! ### When the arguments mean what they say -/

/-- A port or an action timeout is out of its limits; or no removal timeout is
set and the last grace time is in range; or a removal timeout is below 1000 and
some value is out of range. -/
def TimesRight (settings : List Setting) : Prop :=
  (∃ s ∈ settings, (s.option = .port ∨ s.option = .actionTimeout) ∧ ¬ s.InRange) ∨
  ((∀ s ∈ settings, s.option ≠ .removalTimeout) ∧
    ∀ s, (settings.filter Setting.setsGrace).getLast? = some s → s.InRange) ∨
  (∃ s ∈ settings, s.option = .removalTimeout ∧ s.value < 1000) ∧ ∃ s ∈ settings, ¬ s.InRange

section Exact
variable {undef : ℤ → Int32} {settings : List Setting}

theorem last_mem {kind : Setting → Bool} {s : Setting}
    (h : (settings.filter kind).getLast? = some s) : s ∈ settings ∧ kind s = true :=
  List.mem_filter.mp (List.mem_of_getLast? h)

theorem grace_iff (hrange : ∀ s ∈ settings, -2 ^ 31 ≤ s.value ∧ s.value < 2 ^ 31) :
    0 < (configOf undef settings).disconnectGraceTimeMs ∧
        (configOf undef settings).disconnectGraceTimeMs = lastMs Setting.setsGrace 30000 settings ↔
      ∀ s, (settings.filter Setting.setsGrace).getLast? = some s → s.InRange := by
  rw [configOf_grace, lastMs]
  cases hlast : (settings.filter Setting.setsGrace).getLast? with
  | none => simp
  | some s =>
    obtain ⟨hs, hsets⟩ := last_mem hlast
    simp only [Option.map_some, Option.getD_some, Option.some.injEq, forall_eq']
    exact stored_iff undef hsets (hrange s hs)

/-- A removal timeout that passes is stored as it is, not as so many seconds. -/
theorem removal_iff (hpass : ∀ s ∈ settings, s.Passes) :
    0 < (configOf undef settings).removalTimeoutMs ∧
        (configOf undef settings).removalTimeoutMs = lastMs Setting.setsRemoval 60000 settings ↔
      ∀ s ∈ settings, s.option ≠ .removalTimeout := by
  rw [configOf_removal, lastMs]
  cases hlast : (settings.filter Setting.setsRemoval).getLast? with
  | none =>
    have hnone := List.filter_eq_nil_iff.mp (List.getLast?_eq_none_iff.mp hlast)
    refine iff_of_true (by simp) fun s hs hoption => ?_
    exact hnone s hs (by simp [Setting.setsRemoval, hoption])
  | some s =>
    obtain ⟨hs, hsets⟩ := last_mem hlast
    have hpasses := hpass s hs
    obtain ⟨option, value⟩ := s
    obtain rfl : option = .removalTimeout := by simpa [Setting.setsRemoval] using hsets
    simp only [Setting.Passes] at hpasses
    simp only [Option.map_some, Option.getD_some, Setting.stored, Setting.ms]
    exact iff_of_false (by omega) fun h => h _ hs rfl

theorem configMeans_iff (hpass : ∀ s ∈ settings, s.Passes)
    (hrange : ∀ s ∈ settings, -2 ^ 31 ≤ s.value ∧ s.value < 2 ^ 31) :
    ConfigMeans settings (configOf undef settings) ↔
      (∀ s ∈ settings, s.option ≠ .removalTimeout) ∧
        ∀ s, (settings.filter Setting.setsGrace).getLast? = some s → s.InRange := by
  rw [← removal_iff hpass, ← grace_iff hrange]
  constructor
  · intro h
    exact ⟨⟨h.removalPos, h.removal⟩, h.gracePos, h.grace⟩
  · intro hh
    obtain ⟨⟨hremovalPos, hremoval⟩, hgracePos, hgrace⟩ := hh
    exact ⟨configOf_port undef settings hpass, configOf_action undef settings hpass, hgracePos, hgrace,
      hremovalPos, hremoval⟩

theorem Setting.InRange.passes {s : Setting} (h : s.InRange)
    (hremoval : s.option = .removalTimeout → 1000 ≤ s.value) : s.Passes := by
  obtain ⟨option, value⟩ := s
  cases option with
  | port | actionTimeout => exact h
  | removalTimeout => exact hremoval rfl
  | _ => trivial

theorem Setting.Passes.removal {s : Setting} (h : s.Passes) (hoption : s.option = .removalTimeout) :
    1000 ≤ s.value := by
  obtain ⟨option, value⟩ := s
  obtain rfl := hoption
  exact h

theorem Setting.Passes.inRange {s : Setting} (h : s.Passes)
    (hoption : s.option = .port ∨ s.option = .actionTimeout) : s.InRange := by
  obtain ⟨option, value⟩ := s
  rcases hoption with rfl | rfl
  · exact h
  · exact h

/-- The cases of `TimesRight`: the settings do not all pass, or none of them sets
the removal timeout. -/
theorem timesRight_iff :
    ((∀ s ∈ settings, s.Passes) → (∀ s ∈ settings, s.option ≠ .removalTimeout) ∧
        ∀ s, (settings.filter Setting.setsGrace).getLast? = some s → s.InRange) ∧
      ((∀ s ∈ settings, s.InRange) → ∀ s ∈ settings, s.Passes) ↔
    TimesRight settings := by
  constructor
  · intro hh
    obtain ⟨hmeans, hserved⟩ := hh
    by_cases hlimits : ∃ s ∈ settings, (s.option = .port ∨ s.option = .actionTimeout) ∧ ¬ s.InRange
    · exact .inl hlimits
    by_cases hshort : ∃ s ∈ settings, s.option = .removalTimeout ∧ s.value < 1000
    · refine .inr (.inr ⟨hshort, ?_⟩)
      by_contra hall
      push Not at hall
      obtain ⟨s, hs, hoption, hlt⟩ := hshort
      exact absurd ((hserved hall s hs).removal hoption) (not_le.mpr hlt)
    · refine .inr (.inl (hmeans fun s hs => ?_))
      push Not at hlimits hshort
      have hin := hlimits s hs
      have hlong := hshort s hs
      obtain ⟨option, value⟩ := s
      cases option with
      | port => exact hin (.inl rfl)
      | actionTimeout => exact hin (.inr rfl)
      | removalTimeout => exact hlong rfl
      | _ => trivial
  · intro h
    rcases h with ⟨s, hs, hoption, hout⟩ | hmeans | ⟨⟨s, hs, hoption, hlt⟩, s', hs', hout⟩
    · exact ⟨fun hpass => absurd ((hpass s hs).inRange hoption) hout,
        fun hall => absurd (hall s hs) hout⟩
    · exact ⟨fun _ => hmeans, fun hall s hs => (hall s hs).passes fun h => absurd h (hmeans.1 s hs)⟩
    · exact ⟨fun hpass => absurd ((hpass s hs).removal hoption) (not_le.mpr hlt),
        fun hall => absurd (hall s' hs') hout⟩

/-- For all arguments: the server is set up as they say, and those in range are
served, exactly when they are no settings at all or right about the times. -/
theorem meansWhatItSays_iff (argv0 : String) (undef : ℤ → Int32) (args : List String) :
    MeansWhatItSays argv0 undef args ↔
      ∀ settings, settingsOf args = some settings → TimesRight settings := by
  have hserve : ∀ config, main argv0 undef args = .serve config ↔
      ∃ settings, settingsOf args = some settings ∧ (∀ s ∈ settings, s.Passes) ∧
        config = configOf undef settings := fun _ => readArgs_serve_iff argv0 undef
  constructor
  · intro h settings hsettings
    refine timesRight_iff.mp ⟨fun hpass => ?_, fun hall => ?_⟩
    · obtain ⟨settings', hsettings', hmeans⟩ :=
        h.accepted _ ((hserve _).mpr ⟨settings, hsettings, hpass, rfl⟩)
      obtain rfl := Option.some.inj (hsettings.symm.trans hsettings')
      exact (configMeans_iff hpass (settingsOf_range hsettings)).mp hmeans
    · obtain ⟨config, hconfig⟩ := h.documented settings hsettings hall
      obtain ⟨settings', hsettings', hpass, -⟩ := (hserve config).mp hconfig
      obtain rfl := Option.some.inj (hsettings.symm.trans hsettings')
      exact hpass
  · intro h
    refine ⟨fun config hconfig => ?_, fun settings hsettings hall => ?_⟩
    · obtain ⟨settings, hsettings, hpass, rfl⟩ := (hserve config).mp hconfig
      have hmeans := (timesRight_iff.mpr (h settings hsettings)).1 hpass
      exact ⟨settings, hsettings,
        (configMeans_iff hpass (settingsOf_range hsettings)).mpr hmeans⟩
    · have hpass := (timesRight_iff.mpr (h settings hsettings)).2 hall
      exact ⟨_, (hserve _).mpr ⟨settings, hsettings, hpass, rfl⟩⟩

end Exact

/-! ### The documented command line -/

def readmeArgs : List String :=
  ["--port", "8080", "--ample-time", "30", "--removal-timeout", "60"]

def wrapped (value : ℤ) : Int32 := Int32.ofInt (value * 1000)

/-- Sixty seconds are refused as sixty milliseconds, five thousand seconds are
served as five, and no grace time at all is served. -/
theorem main_readmeArgs :
    main "poker_server" wrapped readmeArgs
        = .exit 1 "" "Removal timeout must be at least 1000 ms\n" ∧
      main "poker_server" wrapped ["--removal-timeout", "5000"]
        = .serve { ServerConfig.initial with removalTimeoutMs := 5000 } ∧
      main "poker_server" wrapped ["--ample-time", "0"]
        = .serve { ServerConfig.initial with disconnectGraceTimeMs := 0 } ∧
      ¬ MeansWhatItSays "poker_server" wrapped readmeArgs := by
  have hexit : main "poker_server" wrapped readmeArgs
      = .exit 1 "" "Removal timeout must be at least 1000 ms\n" := by decide
  refine ⟨hexit, by decide, by decide, fun h => ?_⟩
  obtain ⟨config, hconfig⟩ := h.documented
    [⟨.port, 8080⟩, ⟨.ampleTime, 30⟩, ⟨.removalTimeout, 60⟩] (by decide) (by decide)
  rw [hexit] at hconfig
  cases hconfig

end HeadsUp.Server
