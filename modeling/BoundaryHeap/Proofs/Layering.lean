import BoundaryHeap.CommandLine.Settings
import BoundaryHeap.Proofs.Action
import Mathlib.Logic.Basic
import Mathlib.Tactic.ByContra

/-!
Where the settings of a replay come from. An option decides if it is given, else a variable of the
environment, and else the standard setting. Two variables are not always heard: the level of the
records has a standard of its own on the command line, which stands in front of the environment, and
the threshold of the environment is kept within its placement, so it goes if that has none.
-/

namespace BoundaryHeap

namespace Placement

/-- The same policy with another threshold, if it has one. -/
def withLimit (limit : Nat) : Placement → Placement
  | threshold _ => threshold limit
  | other => other

/-- A name stands for a policy whatever the threshold is. -/
theorem ofName?_eq (name : String) (limit : Nat) :
    ofName? name limit = (ofName? name 0).map (withLimit limit) := by
  unfold ofName?
  split <;> rfl

theorem withLimit_eq_iff {placement : Placement} {a b : Nat} :
    placement.withLimit a = placement.withLimit b ↔ placement.limit? = none ∨ a = b := by
  cases placement <;> simp [withLimit, limit?]

theorem bind_ofName? (name : Option String) (limit : Nat) :
    name.bind (ofName? · limit) = (name.bind (ofName? · 0)).map (withLimit limit) := by
  cases name with
  | none => rfl
  | some name => exact ofName?_eq name limit

end Placement

namespace CommandLine

open HeapConfig (number?)

/-- The value of a setting: that of the option, else that of the variable, else the standard. -/
def layered {α : Type} (option held : Option α) (standard : α) : α :=
  (option <|> held).getD standard

theorem layered_eq {α : Type} (option held : Option α) (standard : α) :
    layered option held standard = option.getD (held.getD standard) := by
  cases option <;> rfl

/-- The chunk size that a number asks for. Zero, and a number that cannot be rounded up, ask for
none. -/
def chunkOf? (size : Nat) : Option Nat := if size = 0 then none else Block.roundUp size

/-- The settings of a replay, each of them taken from its option, else from its variable, else the
standard one. A level is given apart from the request, which has one in every case. An option can
only turn checking on, and nothing but an option limits the memory. -/
def layeredConfig (environment : Environment) (request : ReplayRequest) (level : Option String) :
    HeapConfig :=
  let limit := layered request.splitThreshold (number? environment "TAGHEAP_SPLIT_THRESHOLD")
    Placement.defaultThreshold
  let check := ((environment "TAGHEAP_CHECK").map CheckLevel.ofName).getD .off
  { chunkSize := layered (request.chunkSize.bind chunkOf?)
      ((number? environment "TAGHEAP_CHUNK_SIZE").bind chunkOf?) HeapConfig.defaultChunkSize
    placement := layered (request.placement.bind (Placement.ofName? · limit))
      ((environment "TAGHEAP_PLACEMENT").bind (Placement.ofName? · limit)) (.threshold limit)
    check := if request.check ∧ check = .off then .validate else check
    logLevel := layered (level.bind Level.ofName?)
      ((environment "TAGHEAP_LOG").bind Level.ofName?) .info
    maxArenaBytes := request.maxArena.getD LimitedArena.defaultLimit }

/-- Whether an environment asks for a placement without a threshold. -/
def onesided (environment : Environment) : Bool :=
  ((environment "TAGHEAP_PLACEMENT").bind (Placement.ofName? · 0)).any (·.limit?.isNone)

/-- The part of an environment that a command line hears of. -/
def heard (environment : Environment) : Environment := fun name =>
  if name = "TAGHEAP_LOG" ∨ name = "TAGHEAP_SPLIT_THRESHOLD" ∧ onesided environment then none
  else environment name

variable {environment : Environment} {request : ReplayRequest} {level : Option String}

section Heard

theorem heard_log : heard environment "TAGHEAP_LOG" = none := rfl

theorem heard_threshold : number? (heard environment) "TAGHEAP_SPLIT_THRESHOLD" =
    if onesided environment then none else number? environment "TAGHEAP_SPLIT_THRESHOLD" := by
  cases sides : onesided environment <;> simp [number?, heard, sides]

theorem heard_other {name : String} (log : name ≠ "TAGHEAP_LOG")
    (threshold : name ≠ "TAGHEAP_SPLIT_THRESHOLD") : heard environment name = environment name := by
  simp [heard, log, threshold]

theorem number?_heard_other {name : String} (log : name ≠ "TAGHEAP_LOG")
    (threshold : name ≠ "TAGHEAP_SPLIT_THRESHOLD") :
    number? (heard environment) name = number? environment name := by
  rw [number?, heard_other log threshold, number?]

end Heard

theorem withChunkSize_eq (config : HeapConfig) (size : Nat) :
    config.withChunkSize size =
      { config with chunkSize := (chunkOf? size).getD config.chunkSize } := by
  unfold HeapConfig.withChunkSize chunkOf?
  by_cases zero : size = 0
  · simp [zero]
  · cases rounded : Block.roundUp size <;> simp [zero]

/-- What the environment alone asks for. -/
theorem ofEnvironment_eq (environment : Environment) :
    HeapConfig.ofEnvironment environment =
      { chunkSize := ((number? environment "TAGHEAP_CHUNK_SIZE").bind chunkOf?).getD
          HeapConfig.defaultChunkSize
        placement :=
          let limit := (number? environment "TAGHEAP_SPLIT_THRESHOLD").getD
            Placement.defaultThreshold
          ((environment "TAGHEAP_PLACEMENT").bind (Placement.ofName? · limit)).getD
            (.threshold limit)
        check := ((environment "TAGHEAP_CHECK").map CheckLevel.ofName).getD .off
        logLevel := ((environment "TAGHEAP_LOG").bind Level.ofName?).getD .info
        maxArenaBytes := LimitedArena.defaultLimit } := by
  unfold HeapConfig.ofEnvironment
  cases number? environment "TAGHEAP_CHUNK_SIZE" with
  | none => rfl
  | some size =>
    simp only [withChunkSize_eq, Option.bind_some]
    rfl

/-- The threshold that a replay uses is that of its option or the one that is heard of. -/
theorem threshold_ofEnvironment (environment : Environment) (option : Option Nat) :
    threshold option (HeapConfig.ofEnvironment environment).placement =
      layered option (number? (heard environment) "TAGHEAP_SPLIT_THRESHOLD")
        Placement.defaultThreshold := by
  cases option with
  | some limit => rfl
  | none =>
    rw [ofEnvironment_eq, heard_threshold, threshold, layered, onesided]
    simp only [Placement.bind_ofName? _ (Option.getD _ _)]
    rcases (environment "TAGHEAP_PLACEMENT").bind (Placement.ofName? · 0) with
      _ | (limit | _ | _) <;> rfl

/-- The placement that a replay uses is that of its option, if the name there means something, or
that of the environment, with the threshold that is heard of. -/
theorem placementFor_ofEnvironment
    (placed : ∀ name ∈ request.placement, (Placement.ofName? name 0).isSome) :
    placementFor request (HeapConfig.ofEnvironment environment).placement =
      .ok (layeredConfig (heard environment) request level).placement := by
  have limit := threshold_ofEnvironment environment request.splitThreshold
  have apart : heard environment "TAGHEAP_PLACEMENT" = environment "TAGHEAP_PLACEMENT" :=
    heard_other (by decide) (by decide)
  simp only [placementFor, layeredConfig, limit, apart]
  generalize layered request.splitThreshold _ _ = limit
  cases given : request.placement with
  | some name =>
    obtain ⟨placement, known⟩ := Option.isSome_iff_exists.mp (placed name given)
    simp [Placement.ofName?_eq name limit, known, layered]
  | none =>
    rw [ofEnvironment_eq]
    simp only [Placement.bind_ofName? _ (Option.getD _ _), Placement.bind_ofName? _ limit]
    rcases (environment "TAGHEAP_PLACEMENT").bind (Placement.ofName? · 0) with
      _ | (limit | _ | _) <;> rfl

/-- The settings of a replay are layered over the part of the environment that is heard of. -/
theorem configFor_eq
    (placed : ∀ name ∈ request.placement, (Placement.ofName? name 0).isSome)
    (leveled : ∀ name ∈ level, (Level.ofName? name).isSome)
    (standing : request.logLevel = level.getD "info") :
    configFor environment request = .ok (layeredConfig (heard environment) request level) := by
  have placement : placementFor request (HeapConfig.ofEnvironment environment).placement =
      .ok (layeredConfig (heard environment) request level).placement :=
    placementFor_ofEnvironment placed
  have named : Level.ofName? request.logLevel =
      some (layeredConfig (heard environment) request level).logLevel := by
    rw [standing]
    cases level with
    | none => exact Level.ofName?_name .info
    | some name =>
      obtain ⟨logLevel, known⟩ := Option.isSome_iff_exists.mp (leveled name rfl)
      simp [layeredConfig, layered, known]
  have chunkSize : (request.chunkSize.bind chunkOf?).getD
      (HeapConfig.ofEnvironment environment).chunkSize =
      (layeredConfig (heard environment) request level).chunkSize := by
    rw [layeredConfig, layered_eq, ofEnvironment_eq, number?_heard_other (by decide) (by decide)]
  have check : (if request.check ∧ (HeapConfig.ofEnvironment environment).check = .off
      then .validate else (HeapConfig.ofEnvironment environment).check) =
      (layeredConfig (heard environment) request level).check := by
    have apart : heard environment "TAGHEAP_CHECK" = environment "TAGHEAP_CHECK" :=
      heard_other (by decide) (by decide)
    rw [layeredConfig, ofEnvironment_eq, apart]
  have memory : (HeapConfig.ofEnvironment environment).maxArenaBytes = LimitedArena.defaultLimit :=
    congrArg HeapConfig.maxArenaBytes (ofEnvironment_eq environment)
  unfold configFor
  rw [named]
  cases given : request.chunkSize with
  | none =>
    rw [given, Option.bind_none, Option.getD_none] at chunkSize
    simp only [placement, chunkSize, check, memory]
    rfl
  | some size =>
    rw [given, Option.bind_some] at chunkSize
    simp only [withChunkSize_eq, placement, chunkSize, check, memory]
    rfl

/-! ## What is not heard of -/

/-- The threshold of the environment is lost: an option asks for placement by threshold and none
gives the threshold, but the placement of the environment has none. -/
structure MissesThreshold (environment : Environment) (request : ReplayRequest) : Prop where
  option : request.splitThreshold = none
  wanted : ∃ limit, request.placement.bind (Placement.ofName? · 0) = some (.threshold limit)
  apart : onesided environment
  held : ∃ limit ≠ Placement.defaultThreshold,
    number? environment "TAGHEAP_SPLIT_THRESHOLD" = some limit

/-- The level of the environment is lost, since no option gives one. -/
structure MissesLevel (environment : Environment) (level : Option String) : Prop where
  option : level = none
  held : ∃ logLevel ≠ Level.info, (environment "TAGHEAP_LOG").bind Level.ofName? = some logLevel

/-- Which policy is used and which threshold it has are settled apart from each other. -/
theorem placement_layeredConfig : (layeredConfig environment request level).placement =
    (layered (request.placement.bind (Placement.ofName? · 0))
      ((environment "TAGHEAP_PLACEMENT").bind (Placement.ofName? · 0)) (.threshold 0)).withLimit
      (layered request.splitThreshold (number? environment "TAGHEAP_SPLIT_THRESHOLD")
        Placement.defaultThreshold) := by
  simp only [layeredConfig, layered_eq, Placement.bind_ofName? _ (Option.getD _ _)]
  cases request.placement.bind (Placement.ofName? · 0) with
  | some placement => rfl
  | none => cases (environment "TAGHEAP_PLACEMENT").bind (Placement.ofName? · 0) <;> rfl

theorem limit?_of_onesided (sides : onesided environment) :
    (((environment "TAGHEAP_PLACEMENT").bind (Placement.ofName? · 0)).getD
      (.threshold 0)).limit? = none := by
  rw [onesided] at sides
  revert sides
  rcases (environment "TAGHEAP_PLACEMENT").bind (Placement.ofName? · 0) with
    _ | (limit | _ | _) <;> simp [Placement.limit?]

/-- With the whole environment the placement is another one only if its threshold is lost. -/
theorem placement_heard_eq_iff (level : Option String) :
    (layeredConfig (heard environment) request level).placement =
      (layeredConfig environment request level).placement ↔
        ¬ MissesThreshold environment request := by
  have apart : heard environment "TAGHEAP_PLACEMENT" = environment "TAGHEAP_PLACEMENT" :=
    heard_other (by decide) (by decide)
  rw [placement_layeredConfig, placement_layeredConfig, apart, heard_threshold,
    Placement.withLimit_eq_iff, ← not_iff_not, not_not, not_or]
  constructor
  · rintro ⟨limited, different⟩
    cases option : request.splitThreshold with
    | some limit => exact absurd (by rw [option]; rfl) different
    | none =>
      have sides : onesided environment := by
        by_contra other
        exact different (by rw [if_neg other])
      rw [option, if_pos sides] at different
      refine ⟨option, ?_, sides, ?_⟩
      · cases wanted : request.placement.bind (Placement.ofName? · 0) with
        | none =>
          rw [wanted, layered_eq, Option.getD_none] at limited
          exact absurd (limit?_of_onesided sides) limited
        | some placement =>
          cases placement with
          | threshold limit => exact ⟨limit, rfl⟩
          | front => exact absurd (by rw [wanted]; rfl) limited
          | back => exact absurd (by rw [wanted]; rfl) limited
      · cases held : number? environment "TAGHEAP_SPLIT_THRESHOLD" with
        | none => exact absurd (by rw [held]) different
        | some lost =>
          rw [held] at different
          exact ⟨lost, fun same => different same.symm, rfl⟩
  · rintro ⟨option, ⟨limit, wanted⟩, sides, lost, other, held⟩
    rw [option, wanted, if_pos sides, held]
    exact ⟨nofun, fun same => other same.symm⟩

/-- With the whole environment the level is another one only if that of the environment is lost. -/
theorem logLevel_heard_eq_iff (request : ReplayRequest)
    (leveled : ∀ name ∈ level, (Level.ofName? name).isSome) :
    (layeredConfig (heard environment) request level).logLevel =
      (layeredConfig environment request level).logLevel ↔ ¬ MissesLevel environment level := by
  simp only [layeredConfig, layered_eq, heard_log, Option.bind_none, Option.getD_none]
  cases level with
  | some name =>
    obtain ⟨logLevel, known⟩ := Option.isSome_iff_exists.mp (leveled name rfl)
    have given : ¬ MissesLevel environment (some name) := fun misses => nomatch misses.option
    simp [known, given]
  | none =>
    constructor
    · rintro same ⟨-, logLevel, other, held⟩
      rw [held] at same
      exact other same.symm
    · intro kept
      cases held : (environment "TAGHEAP_LOG").bind Level.ofName? with
      | none => rfl
      | some logLevel =>
        by_cases info : logLevel = .info
        · rw [info]
          rfl
        · exact absurd ⟨rfl, logLevel, info, held⟩ kept

theorem layeredConfig_heard_eq_iff (leveled : ∀ name ∈ level, (Level.ofName? name).isSome) :
    layeredConfig (heard environment) request level = layeredConfig environment request level ↔
      ¬ MissesThreshold environment request ∧ ¬ MissesLevel environment level := by
  rw [← placement_heard_eq_iff level, ← logLevel_heard_eq_iff request leveled]
  constructor
  · intro same
    exact ⟨congrArg HeapConfig.placement same, congrArg HeapConfig.logLevel same⟩
  · rintro ⟨placement, logLevel⟩
    have chunkSize : (layeredConfig (heard environment) request level).chunkSize =
        (layeredConfig environment request level).chunkSize := by
      rw [layeredConfig, number?_heard_other (by decide) (by decide)]
      rfl
    have check : (layeredConfig (heard environment) request level).check =
        (layeredConfig environment request level).check := by
      have apart : heard environment "TAGHEAP_CHECK" = environment "TAGHEAP_CHECK" :=
        heard_other (by decide) (by decide)
      rw [layeredConfig, apart]
      rfl
    unfold layeredConfig
    rw [HeapConfig.mk.injEq]
    exact ⟨chunkSize, placement, check, logLevel, rfl⟩

/-! ## The command line -/

section Arguments

variable {arity : String → Option Arity} {fuel : Nat} {arguments : List String} {written : Written}
  {option : Occurrence} {name : String}

/-- An option has a value, unless it is one that takes none. -/
def Occurrence.Filled (arity : String → Option Arity) (option : Occurrence) : Prop :=
  arity option.name ≠ some .none → option.values ≠ []

theorem filled_of_after {read : Except Refusal Written}
    (known : (do return (← read).after option) = .ok written)
    (before : ∀ {others}, read = .ok others → ∀ other ∈ others.options, other.Filled arity)
    (filled : option.Filled arity) : ∀ other ∈ written.options, other.Filled arity := by
  obtain ⟨others, found, same⟩ := Fault.bind_eq_ok.mp known
  cases same
  exact List.forall_mem_cons.mpr ⟨filled, before found⟩

theorem filled_of_occurrences (read : occurrences arity fuel arguments = .ok written) :
    ∀ option ∈ written.options, option.Filled arity := by
  fun_induction occurrences arity fuel arguments generalizing written
  -- one case for each way an option is written; all others end the list or refuse it
  case case5 takes _ ih => exact filled_of_after read ih fun other => absurd takes other
  case case6 ih => exact filled_of_after read ih fun _ => List.cons_ne_nil _ _
  case case7 ih => exact filled_of_after read ih fun _ => List.cons_ne_nil _ _
  case case8 ih => exact filled_of_after read ih fun _ => List.cons_ne_nil _ _
  case case12 some _ ih =>
    exact filled_of_after read ih fun _ => by simpa using some
  case case13 help _ _ _ _ _ =>
    rw [if_pos help] at read
    cases read
    simp
  case case14 other _ _ _ _ _ =>
    rw [if_neg other] at read
    cases read
  all_goals
    cases read
    try simp

/-- An option that takes a value has none exactly if it is not written. -/
theorem valueOf_eq_none_iff {given : Option String} (takes : arity name ≠ some .none)
    (read : occurrences arity fuel arguments = .ok written)
    (known : valueOf name written.options = .ok given) :
    given = none ↔ ∀ option ∈ written.options, option.name ≠ name := by
  rw [valueOf] at known
  cases found : written.options.filter (·.name == name) with
  | nil =>
    rw [found] at known
    cases known
    simpa using found
  | cons option others =>
    obtain ⟨member, named⟩ : option ∈ written.options ∧ (option.name == name) = true :=
      List.mem_filter.mp (found ▸ List.mem_cons_self)
    have same := beq_iff_eq.mp named
    have values := filled_of_occurrences read option member (same ▸ takes)
    rw [found] at known
    cases others with
    | nil =>
      cases known
      rw [List.head?_eq_none_iff]
      exact iff_of_false values fun others => others option member same
    | cons other rest => cases known

/-- The level that a replay is given on the command line, if it is given one. -/
theorem exists_level (asked : ReplayRequest.ofWritten written = .ok request) :
    ∃ level, valueOf "log-level" written.options = .ok level ∧
      request.logLevel = level.getD "info" := by
  simp only [ReplayRequest.ofWritten, Fault.bind_eq_ok] at asked
  obtain ⟨traces, -, check, -, limit, -, placement, -, chunkSize, -, memory, -, output, -, log, -,
    level, given, rest⟩ := asked
  refine ⟨level, given, ?_⟩
  by_cases help : written.help
  case pos =>
    rw [if_pos help] at rest
    cases rest
  rw [if_neg help] at rest
  by_cases none : traces.isEmpty
  case pos =>
    rw [if_pos none] at rest
    cases rest
  rw [if_neg none] at rest
  cases rest
  rfl

theorem exists_written
    (asked : Request.ofArguments ("replay" :: arguments) = .ok (.replay request)) :
    ∃ written, occurrences replayArity (arguments.length + 1) arguments = .ok written ∧
      ReplayRequest.ofWritten written = .ok request := by
  obtain ⟨written, read, rest⟩ := Fault.bind_eq_ok.mp asked
  obtain ⟨found, known, same⟩ := Fault.bind_eq_ok.mp rest
  cases same
  exact ⟨written, read, known⟩

end Arguments

/-- The settings of a replay, for every environment and every command line whose options have valid
values. They are layered as they should be over the part of the environment that is heard of. Over
the whole of it they are, exactly unless the threshold or the level that it holds is lost. -/
theorem configFor_layered (environment : Environment) {arguments : List String}
    (asked : Request.ofArguments ("replay" :: arguments) = .ok (.replay request))
    (placed : ∀ name ∈ request.placement, (Placement.ofName? name 0).isSome)
    (leveled : (Level.ofName? request.logLevel).isSome) :
    ∃ written level,
      occurrences replayArity (arguments.length + 1) arguments = .ok written ∧
      valueOf "log-level" written.options = .ok level ∧
      (level = none ↔ ∀ option ∈ written.options, option.name ≠ "log-level") ∧
      configFor environment request = .ok (layeredConfig (heard environment) request level) ∧
      (configFor environment request = .ok (layeredConfig environment request level) ↔
        ¬ MissesThreshold environment request ∧ ¬ MissesLevel environment level) := by
  obtain ⟨written, read, found⟩ := exists_written asked
  obtain ⟨level, given, standing⟩ := exists_level found
  have named : ∀ name ∈ level, (Level.ofName? name).isSome := by
    rintro name ⟨⟩
    rwa [standing] at leveled
  have config : configFor environment request =
      .ok (layeredConfig (heard environment) request level) := configFor_eq placed named standing
  refine ⟨written, level, read, given, valueOf_eq_none_iff (by decide) read given, config, ?_⟩
  rw [config, Except.ok.injEq]
  exact layeredConfig_heard_eq_iff named

/-- An environment that asks for a placement without a threshold, and for all records. -/
def fullEnvironment : Environment := fun name =>
  [("TAGHEAP_PLACEMENT", "back"), ("TAGHEAP_SPLIT_THRESHOLD", "33"),
    ("TAGHEAP_LOG", "trace")].lookup name

/-- A request for placement by threshold. -/
def plainRequest : ReplayRequest :=
  { traces := ["t"]
    check := false
    splitThreshold := none
    placement := some "threshold"
    chunkSize := none
    maxArena := none
    output := none
    log := none
    logLevel := "info" }

/-- The threshold and the level of the environment should be used, and the standard ones are. -/
theorem configFor_layered_full :
    Request.ofArguments ["replay", "--trace", "t", "--placement", "threshold"] =
        .ok (.replay plainRequest) ∧
      configFor fullEnvironment plainRequest = .ok HeapConfig.standard ∧
      layeredConfig fullEnvironment plainRequest none =
        { HeapConfig.standard with placement := .threshold 33, logLevel := .trace } ∧
      configFor fullEnvironment plainRequest ≠
        .ok (layeredConfig fullEnvironment plainRequest none) := by
  have asked : Request.ofArguments ["replay", "--trace", "t", "--placement", "threshold"] =
      .ok (.replay plainRequest) := by rfl
  have misses : MissesThreshold fullEnvironment plainRequest :=
    { option := rfl
      wanted := ⟨0, by decide +kernel⟩
      apart := by decide +kernel
      held := ⟨33, by decide, by decide +kernel⟩ }
  obtain ⟨written, level, read, given, unwritten, config, whole⟩ :=
    configFor_layered fullEnvironment asked (by decide +kernel) (by decide +kernel)
  have options : occurrences replayArity 5 ["--trace", "t", "--placement", "threshold"] =
      .ok ⟨[⟨"trace", ["t"]⟩, ⟨"placement", ["threshold"]⟩], false⟩ := by rfl
  cases read.symm.trans options
  obtain rfl : level = none := unwritten.mpr (by decide)
  have standard : layeredConfig (heard fullEnvironment) plainRequest none = HeapConfig.standard := by
    decide +kernel
  rw [standard] at config
  exact ⟨asked, config, by decide +kernel, fun same => (whole.mp same).1 misses⟩

end CommandLine

end BoundaryHeap
