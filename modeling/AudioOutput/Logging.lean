import AudioOutput.Logger

/-!
# What the library logs

A function that reports as it goes and may throw, and the pointer through which
the library's functions log. The pointer is null until the first `getLogger`.
-/

namespace AudioOutput

universe u v w

/-- What a function reports, and its result or what it throws. -/
structure Reporting (M : Type u) (E : Type v) (α : Type w) where
  reports : List M
  result : Except E α

namespace Reporting

variable {M : Type u} {E : Type v} {α β : Type w}

instance : Monad (Reporting M E) where
  pure a := ⟨[],.ok a⟩
  bind p f := match p.result with
    | .ok a => ⟨p.reports ++ (f a).reports,(f a).result⟩
    | .error e => ⟨p.reports,.error e⟩

instance : MonadExceptOf E (Reporting M E) where
  throw e := ⟨[],.error e⟩
  tryCatch p handle := match p.result with
    | .ok _ => p
    | .error e => ⟨p.reports ++ (handle e).reports,(handle e).result⟩

theorem reports_prefix (p : Reporting M E α) (f : α → Reporting M E β) : p.reports <+: (p >>= f).reports := by
  change p.reports <+: Reporting.reports (match p.result with
    | .ok a => ⟨p.reports ++ (f a).reports,(f a).result⟩
    | .error e => ⟨p.reports,.error e⟩)
  split
  · exact List.prefix_append _ _
  · exact List.prefix_refl _

theorem bind_reports_ne_nil {p : Reporting M E α} (h : p.reports ≠ []) (f : α → Reporting M E β) :
    (p >>= f).reports ≠ [] :=
  (p.reports_prefix f).ne_nil h

end Reporting

namespace Logging

open Logger

structure Message where
  level : LoggingLevel
  format : String
  deriving DecidableEq

/-- A function of the library that logs, and may throw something with that `what()`. -/
abbrev Body := Reporting Message String

def report (message : Message) : Body Unit := ⟨[message],.ok ()⟩

def logCritical (message : String) : Body Unit := report ⟨.critical,message⟩

def logInfo (message : String) : Body Unit := report ⟨.info,message⟩

def logDebug (message : String) : Body Unit := report ⟨.debug,message⟩

inductive LoggerPointer
  | null | live | deleted
  deriving DecidableEq

/-- A log helper has been called: `(*logger)->...`, with what the pointer was. -/
structure LogCall where
  message : Message
  logger : LoggerPointer
  deriving DecidableEq

/-- The globals of `logging.cpp`. -/
structure Globals where
  logger : LoggerPointer := .null
  initLoggerFlag : Bool := false

def initializeLogger (g : Globals) : Globals := { g with logger := .live }

def shutdownLogger (g : Globals) : Globals := if g.logger ≠ .null then { g with logger := .deleted } else g

/-- `boost::call_once(init_logger_flag, initializeLogger)`. -/
def getLoggerImpl (g : Globals) : Globals :=
  if g.initLoggerFlag then g else { initializeLogger g with initLoggerFlag := true }

/-- `OutputDeviceImplementation::init`. -/
def initMessage : Message := ⟨.debug,"DeviceFactoryImplementation initialized. input_frames = %i, input_sr = %i, input_channels = %i, output_frames = %i, output_sr = %i, output_channels = %i."⟩

def waitingMessage : Message := ⟨.debug,"OutputWorkerthread: initialized. Waiting on initial mix."⟩

def finishedMessage : Message := ⟨.debug,"OutputWorkerThread: finished initial mix."⟩

/-- `~OutputDeviceFactoryImplementation`. -/
def dyingMessage : Message := ⟨.info,"Output device factory is dying.  Terminating all devices."⟩

end Logging
end AudioOutput
