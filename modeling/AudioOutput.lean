import AudioOutput.Buffer
import AudioOutput.Program
import AudioOutput.Faults
import AudioOutput.Accumulation
import AudioOutput.MixingMatrices
import AudioOutput.Remix
import AudioOutput.RemixChannels
import AudioOutput.RemixAudio
import AudioOutput.RemixMirror
import AudioOutput.RemixPeak
import AudioOutput.RemixStream
import AudioOutput.Resampler
import AudioOutput.ResamplerStreams
import AudioOutput.SpeexCounting
import AudioOutput.SpeexResampler
import AudioOutput.SpeexKernels
import AudioOutput.SpeexLanes
import AudioOutput.SpeexMemory
import AudioOutput.SpeexInit
import AudioOutput.SpeexStreams
import AudioOutput.StaticResampler
import AudioOutput.StaticResamplerLoop
import AudioOutput.BlockLength
import AudioOutput.SampleFormatConverter
import AudioOutput.ConverterRefill
import AudioOutput.ConverterStreams
import AudioOutput.BlockRefills
import AudioOutput.ConverterTermination
import AudioOutput.ConverterBounds
import AudioOutput.Transition
import AudioOutput.Lanes
import AudioOutput.LightweightSemaphore
import AudioOutput.OutputWorkerThread
import AudioOutput.BufferOwnership
import AudioOutput.StreamFidelity
import AudioOutput.WorkerStream
import AudioOutput.WriteSupply
import AudioOutput.Shutdown
import AudioOutput.ShutdownTermination
import AudioOutput.WriteCalls
import AudioOutput.EmptyBuffers
import AudioOutput.InitialMix
import AudioOutput.AlsaOutputDevice
import AudioOutput.AlsaFrames
import AudioOutput.AlsaChannels
import AudioOutput.AlsaHandle
import AudioOutput.Playback
import AudioOutput.AlsaPlayback
import AudioOutput.AlsaOutputDeviceFactory
import AudioOutput.Logger
import AudioOutput.LoggerDelivery
import AudioOutput.LoggerTexts
import AudioOutput.LoggerTermination
import AudioOutput.ThreadsafeQueue
import AudioOutput.QueueWakeups
import AudioOutput.QueueCounter
import AudioOutput.QueueOrder
import AudioOutput.ThreadPool
import AudioOutput.ThreadPoolRequests
import AudioOutput.ThreadPoolLines
import AudioOutput.ThreadPoolWork
import AudioOutput.ThreadPoolJobs
import AudioOutput.ThreadPoolBarriers
import AudioOutput.ThreadPoolSeparation
import AudioOutput.ThreadPoolTermination
import AudioOutput.ThreadPoolRangeOrder
import AudioOutput.ThreadLocalVariable
import AudioOutput.ThreadLocalSlot
import AudioOutput.ThreadLocalCalls
import AudioOutput.ThreadLocalIsolation
import AudioOutput.SingleThreadedApartment
import AudioOutput.ApartmentTasks
import AudioOutput.ApartmentCalls
import AudioOutput.ApartmentTermination
import AudioOutput.RingBuffer
import AudioOutput.LatencyPredictor
import AudioOutput.LatencyBlocks
import AudioOutput.Logging
import AudioOutput.WasapiOutputDeviceFactory
import AudioOutput.WasapiOutputDevice
import AudioOutput.WasapiMixing
import AudioOutput.WasapiChunks
import AudioOutput.WasapiPlayback
import AudioOutput.AudioIo
import AudioOutput.LoggerLifetime
import AudioOutput.CreatedDevices
