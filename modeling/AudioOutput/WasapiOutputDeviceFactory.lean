import AudioOutput.Logging

/-!
# The WASAPI factory

`createWasapiOutputDeviceFactory`, the constructor, `rescan` and `createDevice` with
what they log, for any answers of COM.
-/

namespace AudioOutput

open Logging

abbrev HResult := ℤ

/-- `IS_ERROR`, the top bit. -/
def isError (res : HResult) : Bool := decide (res < 0)

/-- What a call that hands out an interface answers, and whether it stores a null one. -/
structure ComAnswer where
  res : HResult
  null : Bool := false

/-- The text of the message is passed as an argument of the format "audio_io". -/
def wrapComPointer (answer : ComAnswer) : Body Unit := if answer.null then logDebug "audio_io" else pure ()

namespace WasapiOutputDeviceFactory

/-- `if(IS_ERROR(res)) { logCritical(message, ...); throw AudioIOError(error); }` -/
def require (res : HResult) (message error : String) : Body Unit := do
  if isError res then
    logCritical message
    throw error

structure EndpointAnswers where
  item : ComAnswer
  properties : ComAnswer
  format : HResult
  identifier : HResult
  friendlyName : HResult

structure RescanAnswers where
  collection : ComAnswer
  count : HResult
  endpoints : List EndpointAnswers

def rescanEndpoint (a : EndpointAnswers) : Body Unit := do
  require a.item.res "Couldn't obtain device info for device %i.  Error %i" "Failure to retrieve device information."
  wrapComPointer a.item
  require a.properties.res "Couldn't open property store for device %i. Error %i" "Cannot open property store."
  wrapComPointer a.properties
  require a.format "Could not obtain device format for device %i. Error: %i" "Couldn't get device format."
  require a.identifier "Could not retreive identifier for device %i. Error %i" "Failure to retrieve device identifier"
  require a.friendlyName "Failure to obtain friendly name for device %i.  Error %i" "Couldn't get friendly name"

def rescan (a : RescanAnswers) : Body Unit := do
  require a.collection.res "Failed to get IMMDeviceCollection.  COM error %i" "Could not create IMMDeviceCollection."
  wrapComPointer a.collection
  require a.count "Failure to retrieve device count. Error %i" "Could not determine device count."
  a.endpoints.forM rescanEndpoint

def new (enumerator : ComAnswer) (a : RescanAnswers) : Body Unit := do
  try
    require enumerator.res "Could not create device enumerator in factory constructor. Error %i\n"
      "Could not create Wasapi device enumerator"
    wrapComPointer enumerator
    rescan a
  catch e =>
    -- unwinding runs the destructor of the base class
    report dyingMessage
    throw e

/-- Up to the device's constructor. -/
def createDevice (endpoint : ComAnswer) : Body Unit := do
  require endpoint.res "Could not create IMMDevice instance.  COM error %i" "Could not create IMMDeviceInstance"
  wrapComPointer endpoint

structure ProbeAnswers where
  enumerator : ComAnswer
  endpoint : ComAnswer
  client : ComAnswer
  mixFormat : HResult
  initializeClient : HResult

/-- The test scope: can the default device be opened? -/
def probe (a : ProbeAnswers) : Body Bool := do
  if isError a.enumerator.res then
    logDebug "Couldn't create IMMDeviceEnumerator.  COM error %i"
    return false
  wrapComPointer a.enumerator
  if isError a.endpoint.res then
    logDebug "Couldn't initialize IMMDevice for the default audio device.  COM error %i"
    return false
  wrapComPointer a.endpoint
  if isError a.client.res then
    logDebug "Couldn't activate default Wasapi audio device. COM error %i"
    return false
  wrapComPointer a.client
  if isError a.mixFormat then
    logDebug "Couldn't get mix format for default device.  COM error %i"
    return false
  if isError a.initializeClient then
    logDebug "Couldn't initialize default audio device. COM error %i"
    return false
  return true

structure Answers where
  probe : ProbeAnswers
  enumerator : ComAnswer
  rescan : RescanAnswers

def createWasapiOutputDeviceFactory (a : Answers) : Body Bool := do
  try
    if ← probe a.probe then
      new a.enumerator a.rescan
      return true
    return false
  catch _ =>
    logDebug "Attempt to initialize Wasapi failed. Falling back to next preferred factory."
    return false

end WasapiOutputDeviceFactory
end AudioOutput
