/-
Confirmation proof of compute.

During the inference phase of an epoch the end of a block may trigger an event, in which the nodes
prove once more that they can compute.  The event is kept twice: as the active one, and under its
epoch and number.  The end of each later block moves it through its phases and in the end clears the
active copy.

The random decision and the search for upgrades are left open; the snapshots that are taken along
the way are read by nobody here and left out.  `log` is what the handler did for each event.
-/
import Gonka.Chain.EpochContext
import Gonka.Lib.OrdMap
import Gonka.Lib.Wire
import Mathlib.Data.Prod.Lex

namespace Inference

inductive ConfirmationPoCPhase where
  | gracePeriod
  | generation
  | validation
  | completed
deriving DecidableEq

structure ConfirmationPoCEvent where
  epochIndex : ℕ
  eventSequence : ℕ
  triggerHeight : ℤ
  generationStartHeight : ℤ
  phase : ConfirmationPoCPhase
  /-- empty until the generation starts; the text is its hexadecimal form -/
  pocSeedBlockHash : Bytes := []
deriving DecidableEq

namespace ConfirmationPoCEvent

variable (e : ConfirmationPoCEvent) (params : EpochParams)

def key : ℕ ×ₗ ℕ := toLex (e.epochIndex, e.eventSequence)

def getGenerationEnd : ℤ := i64 (e.generationStartHeight + params.pocStageDuration - 1)

def getExchangeEnd : ℤ := i64 (e.getGenerationEnd params + params.pocExchangeDuration)

def getValidationStart : ℤ := i64 (e.getExchangeEnd params + params.pocValidationDelay)

def getValidationEnd : ℤ := i64 (e.getValidationStart params + params.pocValidationDuration - 1)

def shouldTransitionToGeneration (blockHeight : ℤ) : Bool :=
  decide (e.phase = .gracePeriod) && decide (e.generationStartHeight ≤ blockHeight)

def shouldTransitionToValidation (blockHeight : ℤ) : Bool :=
  decide (e.phase = .generation) && decide (e.getValidationStart params ≤ blockHeight)

def shouldTransitionToCompleted (blockHeight : ℤ) : Bool :=
  decide (e.phase = .validation) && decide (e.getValidationEnd params < blockHeight)

def getExpectedPhase (blockHeight : ℤ) : ConfirmationPoCPhase :=
  if blockHeight < e.generationStartHeight then .gracePeriod
  else if blockHeight < e.getValidationStart params then .generation
  else if blockHeight ≤ e.getValidationEnd params then .validation
  else .completed

end ConfirmationPoCEvent

structure ConfirmationPoCParams where
  expectedConfirmationsPerEpoch : ℕ
  upgradeProtectionWindow : ℤ

structure Params where
  epochParams : EpochParams
  confirmationPocParams : Option ConfirmationPoCParams

inductive Action where
  | enter (phase : ConfirmationPoCPhase)
  | updateConfirmationWeights
  | clear
deriving DecidableEq

structure Entry where
  event : ℕ ×ₗ ℕ
  height : ℤ
  action : Action

structure Keeper where
  epochs : OrdMap ℕ Epoch
  effectiveEpochIndex : ℕ
  activeConfirmationPoCEvent : Option ConfirmationPoCEvent := none
  confirmationPoCEvents : OrdMap (ℕ ×ₗ ℕ) ConfirmationPoCEvent := ∅
  log : List Entry := []

/-- What a block brings: the hash of the block before, which has 32 bytes, and what the checks for
upgrades find. -/
structure Block where
  hash : Bytes
  hash_length : hash.length = 32
  /-- `GetPunishmentGraceEpoch`, the window of the epoch -/
  punishmentGraceWindow : ℕ → Option ℤ
  hasUpgradeInWindow : ℤ → Bool

structure Env where
  params : Params
  /-- `int64(float64(duration) * 0.8)` -/
  windDown : ℤ → ℤ
  /-- the deterministic random number of the hash and height is below the quotient -/
  randomBelow : Bytes → ℤ → ℕ → ℤ → Bool

abbrev Env.epochParams (env : Env) : EpochParams := env.params.epochParams

namespace Keeper

def getEffectiveEpoch (k : Keeper) : Option Epoch := k.epochs.get? k.effectiveEpochIndex

def setConfirmationPoCEvent (k : Keeper) (event : ConfirmationPoCEvent) : Keeper :=
  { k with confirmationPoCEvents := k.confirmationPoCEvents.insert event.key event }

def setActiveConfirmationPoCEvent (k : Keeper) (event : ConfirmationPoCEvent) : Keeper :=
  { k with activeConfirmationPoCEvent := some event }

def clearActiveConfirmationPoCEvent (k : Keeper) : Keeper :=
  { k with activeConfirmationPoCEvent := none }

def getAllConfirmationPoCEventsForEpoch (k : Keeper) (epochIndex : ℕ) :
    List ConfirmationPoCEvent :=
  (k.confirmationPoCEvents.entries.filter fun e => (ofLex e.1).1 = epochIndex).map Prod.snd

def record (k : Keeper) (event : ConfirmationPoCEvent) (height : ℤ) (actions : List Action) :
    Keeper :=
  { k with log := k.log ++ actions.map fun action => ⟨event.key, height, action⟩ }

end Keeper

section

variable (env : Env)

def advance (params : EpochParams) (block : Block) (blockHeight : ℤ)
    (event : ConfirmationPoCEvent) : ConfirmationPoCEvent × List Action :=
  let (event, actions) :=
    if event.shouldTransitionToGeneration blockHeight then
      ({ event with pocSeedBlockHash := block.hash, phase := .generation },
        [Action.enter .generation])
    else (event, [])
  let (event, actions) :=
    if event.shouldTransitionToValidation params blockHeight then
      ({ event with phase := .validation }, actions ++ [Action.enter .validation])
    else (event, actions)
  if event.shouldTransitionToCompleted params blockHeight then
    ({ event with phase := .completed },
      actions ++ [Action.enter .completed, Action.updateConfirmationWeights])
  else (event, actions)

/-- `handleConfirmationPoCPhaseTransitions`.  An event that is cleared is not stored again. -/
def handleConfirmationPoCPhaseTransitions (block : Block) (blockHeight : ℤ)
    (epochContext : EpochContext) (k : Keeper) : Keeper :=
  let params := env.epochParams
  if epochContext.epochIndex ≤ 1 then k
  else match k.activeConfirmationPoCEvent with
    | none => k
    | some activeEvent =>
      let (event, actions) := advance params block blockHeight activeEvent
      let k := k.record event blockHeight actions
      if event.phase = .completed ∧
          i64 (event.getValidationEnd params + 1 + params.setNewValidatorsDelay) ≤ blockHeight then
        (k.record event blockHeight [.clear]).clearActiveConfirmationPoCEvent
      else if actions ≠ [] then
        (k.setConfirmationPoCEvent event).setActiveConfirmationPoCEvent event
      else k

def upgradeProtectionWindow (block : Block) (epochIndex : ℕ)
    (confirmationParams : ConfirmationPoCParams) : ℤ :=
  let window := if confirmationParams.upgradeProtectionWindow ≤ 0 then 500
    else confirmationParams.upgradeProtectionWindow
  match block.punishmentGraceWindow epochIndex with
  | some graceWindow => if 0 < graceWindow then graceWindow else window
  | none => window

def confirmationWindowDuration (params : EpochParams) : ℤ :=
  i64 (params.pocStageDuration + params.pocExchangeDuration + params.pocValidationDelay +
    params.pocValidationDuration + params.setNewValidatorsDelay +
    params.confirmationPocSafetyWindow)

def triggerWindowEnd (params : EpochParams) (epochContext : EpochContext) : ℤ :=
  i64 (epochContext.nextEpochContext.pocStartBlockHeight - params.inferenceValidationCutoff -
    confirmationWindowDuration params)

def triggeredEvent (params : EpochParams) (blockHeight : ℤ) (epochContext : EpochContext)
    (k : Keeper) : ConfirmationPoCEvent where
  epochIndex := epochContext.epochIndex
  eventSequence := (k.getAllConfirmationPoCEventsForEpoch epochContext.epochIndex).length
  triggerHeight := blockHeight
  -- the grace period has at least one block
  generationStartHeight := i64 (blockHeight +
    if params.inferenceValidationCutoff < 1 then 1 else params.inferenceValidationCutoff)
  phase := .gracePeriod

def checkConfirmationPoCTrigger (block : Block) (blockHeight : ℤ) (epochContext : EpochContext)
    (confirmationParams : ConfirmationPoCParams) (k : Keeper) : Except String Keeper :=
  let params := env.epochParams
  if epochContext.epochIndex ≤ 1 then .ok k
  else if epochContext.getCurrentPhase env.windDown blockHeight ≠ .inference then .ok k
  else if k.activeConfirmationPoCEvent.isSome then .ok k
  else if block.hasUpgradeInWindow
      (upgradeProtectionWindow block epochContext.epochIndex confirmationParams) then .ok k
  else
    let windowEnd := triggerWindowEnd params epochContext
    if blockHeight < epochContext.setNewValidators ∨ windowEnd < blockHeight then .ok k
    else
      let triggerWindowLength := i64 (windowEnd - epochContext.setNewValidators + 1)
      if triggerWindowLength ≤ 0 then .ok k
      else if block.hash.length < 8 then
        .error ("block hash too short: " ++ toString block.hash.length ++ " bytes")
      else if !env.randomBelow (block.hash.take 8) blockHeight
          confirmationParams.expectedConfirmationsPerEpoch triggerWindowLength then .ok k
      else
        let event := triggeredEvent params blockHeight epochContext k
        .ok (((k.setConfirmationPoCEvent event).setActiveConfirmationPoCEvent event).record event
          blockHeight [.enter .gracePeriod])

/-- `handleConfirmationPoC`, and its error. -/
def handleConfirmationPoC (block : Block) (blockHeight : ℤ) (k : Keeper) : Keeper × Option String :=
  match env.params.confirmationPocParams with
  | none => (k, none)
  | some confirmationParams =>
    if confirmationParams.expectedConfirmationsPerEpoch = 0 then (k, none)
    else match k.getEffectiveEpoch with
      | none => (k, none)
      | some currentEpoch =>
        match newEpochContextFromEffectiveEpoch currentEpoch env.epochParams blockHeight with
        | none => (k, some "failed to create epoch context: invalid height")
        | some epochContext =>
          let k := handleConfirmationPoCPhaseTransitions env block blockHeight epochContext k
          match checkConfirmationPoCTrigger env block blockHeight epochContext
              confirmationParams k with
          | .error e => (k, some ("failed to check confirmation PoC trigger: " ++ e))
          | .ok k => (k, none)

def advanceEpoch (blockHeight : ℤ) (k : Keeper) : Keeper :=
  match k.getEffectiveEpoch with
  | none => k
  | some currentEpoch =>
    match newEpochContextFromEffectiveEpoch currentEpoch env.epochParams blockHeight with
    | none => k
    | some epochContext =>
      let k :=
        if epochContext.isSetNewValidatorsStage blockHeight then
          { k with effectiveEpochIndex := currentEpoch.index + 1 }
        else k
      if epochContext.isStartOfPocStage blockHeight then
        { k with epochs := k.epochs.insert (currentEpoch.index + 1)
                  ⟨currentEpoch.index + 1, blockHeight⟩ }
      else k

structure Chain where
  keeper : Keeper
  /-- the last block -/
  height : ℤ

/-- `EndBlock` of the next block; an error of the handler is only logged. -/
def endBlock (block : Block) (c : Chain) : Chain where
  keeper := advanceEpoch env (c.height + 1)
    (handleConfirmationPoC env block (c.height + 1) c.keeper).1
  height := c.height + 1

end

end Inference
