import RtVcom.Lib.Machine
import RtVcom.Lib.Circular
import RtVcom.Kernel.Ipc
import RtVcom.Kernel.Device
import RtVcom.Driver.RingBuffer
import RtVcom.Serial.RxFifo
import RtVcom.Serial.Device
import RtVcom.Usb.Endpoint
import RtVcom.Hmi.Receiver
import RtVcom.Hmi.Wakeup
import RtVcom.Vcom.Writer
import RtVcom.Vcom.Transmitter
import RtVcom.Vcom.Transfer
import RtVcom.Vcom.Reception
import RtVcom.Console.Switch
import RtVcom.Console.ChangePrint
import RtVcom.Console.Output
import RtVcom.Console.Call
import RtVcom.Console.Input
import RtVcom.Usb.Configuration
import RtVcom.Usb.Control
import RtVcom.Board.Ad9954
import RtVcom.Board.Ad9959
import RtVcom.Finsh.LineEditor
import RtVcom.Finsh.Editing
import RtVcom.Kernel.Inheritance
import RtVcom.Kernel.Semaphore
import RtVcom.Kernel.MemLaws
import RtVcom.Ulog.LineFit
import RtVcom.Ulog.Delivery
import RtVcom.Kernel.Event
import RtVcom.Kernel.TimerOrder
import RtVcom.Kernel.Mailbox
import RtVcom.Kernel.MessageQueueLaws
import RtVcom.Serial.Bookkeeping
import RtVcom.Kernel.TimeSlice
import RtVcom.Kernel.WaitOrder
import RtVcom.Kernel.Preemption
import RtVcom.Driver.RingFifo
import RtVcom.Driver.DataQueue
import RtVcom.Driver.BlockQueueRun
import RtVcom.Usb.ControlIn
import RtVcom.Kernel.Completion
import RtVcom.Kernel.MemPool
import RtVcom.Kernel.ReclaimLaws
import RtVcom.Usb.ControlOut
import RtVcom.Serial.IntFifo
import RtVcom.Serial.DmaFifo
import RtVcom.Vcom.OpenReception
import RtVcom.Usb.Halt
import RtVcom.Usb.EpPool
import RtVcom.Usb.ConfigDescriptor
import RtVcom.Usb.StringDescriptor
import RtVcom.Vcom.TxCall
import RtVcom.Kernel.MemData
import RtVcom.Kernel.MemAccount
import RtVcom.Kernel.TimerCheck
import RtVcom.Board.Ad9959Wire
import RtVcom.Board.Ad9959Words
import RtVcom.Hmi.Command
import RtVcom.Finsh.Grammar
import RtVcom.Finsh.TabCompletion
import RtVcom.Finsh.History
import RtVcom.Ulog.LineLayout
import RtVcom.Ulog.Backends
import RtVcom.Kernel.Delay
import RtVcom.Serial.DmaCount
import RtVcom.Kernel.MemHeap
import RtVcom.Kernel.MemHeapItems
import RtVcom.Kernel.MemHeapShape
import RtVcom.Kernel.MemHeapOps
import RtVcom.Kernel.MemHeapCalls
import RtVcom.Kernel.MemHeapRun
import RtVcom.Kernel.MemHeapServes
import RtVcom.Kservice.MemBytes
import RtVcom.Kservice.Format
import RtVcom.Kservice.FormatPieces
import RtVcom.Kservice.Truncation
import RtVcom.Kservice.IsoDirective
import RtVcom.Kservice.IsoNumbers
import RtVcom.Vcom.Stream
import RtVcom.Driver.DataQueueRun
import RtVcom.Serial.DmaTransmit
import RtVcom.Kernel.Object
import RtVcom.Finsh.ObjectListing
import RtVcom.Hmi.Session
import RtVcom.Finsh.Terminal
import RtVcom.Driver.WorkQueue
import RtVcom.Usb.ControlRead
import RtVcom.Kernel.Sleep
import RtVcom.Kernel.CallTimers
import RtVcom.Kernel.TimedCalls
import RtVcom.Kernel.WaitLimit
import RtVcom.Console.Typing
