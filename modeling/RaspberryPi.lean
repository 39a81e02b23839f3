import RaspberryPi.Foundation.Machine
import RaspberryPi.Foundation.Framing
import RaspberryPi.Foundation.Pipe
import RaspberryPi.Foundation.Decimal
import RaspberryPi.Foundation.ByteOrder
import RaspberryPi.Foundation.PrefixCode
import RaspberryPi.Foundation.Raster
import RaspberryPi.Foundation.WhileLoop
import RaspberryPi.Foundation.LineInput
import RaspberryPi.Bitmap.BufferBounds
import RaspberryPi.ChatServer.Agreement
import RaspberryPi.ChatServer.Channel
import RaspberryPi.ChatServer.ClientInput
import RaspberryPi.ChatServer.ClientLoop
import RaspberryPi.ChatServer.Conversation
import RaspberryPi.ChatServer.Exchange
import RaspberryPi.ChatServer.History
import RaspberryPi.ChatServer.InputEnd
import RaspberryPi.ChatServer.Isolation
import RaspberryPi.ChatServer.MainLoop
import RaspberryPi.ChatServer.Malformed
import RaspberryPi.ChatServer.Membership
import RaspberryPi.ChatServer.Ownership
import RaspberryPi.ChatServer.Reaping
import RaspberryPi.ChatServer.Recognition
import RaspberryPi.ChatServer.RoomListing
import RaspberryPi.ChatServer.RoomRemoval
import RaspberryPi.ChatServer.Shutdown
import RaspberryPi.ChatServer.SocketDelivery
import RaspberryPi.ChatServer.SocketLines
import RaspberryPi.ChatServer.System
import RaspberryPi.ChatServer.WakeUp
import RaspberryPi.ChatServer.Whisper
import RaspberryPi.Concurrency.MessageQueue
import RaspberryPi.Concurrency.ThreadMutex
import RaspberryPi.Epoll.Batches
import RaspberryPi.Fbdraw.CircleAccuracy
import RaspberryPi.Fbdraw.Line
import RaspberryPi.Fbdraw.Rectangle
import RaspberryPi.ForkServer.Registry
import RaspberryPi.Gpio.Pins
import RaspberryPi.Gpio.Signal
import RaspberryPi.Gpio.Timer
import RaspberryPi.Gpio.WriteSafety
import RaspberryPi.ListDir.Completeness
import RaspberryPi.Select.ClientTable
import RaspberryPi.Sensors.Temperature
import RaspberryPi.Streaming.Descriptors
import RaspberryPi.Streaming.FrameBounds
import RaspberryPi.Streaming.FrameColors
import RaspberryPi.Streaming.Link
import RaspberryPi.Streaming.Output
import RaspberryPi.Streaming.Progress
import RaspberryPi.Streaming.System
import RaspberryPi.Wav.Sound
import RaspberryPi.WebServer.Headers
import RaspberryPi.WebServer.SendData
import RaspberryPi.WebServer.Service
