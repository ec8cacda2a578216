import MlinkDevice.Cursor
import MlinkDevice.PageSize
import MlinkDevice.Listing
import MlinkDevice.Receive
import MlinkDevice.Validate
import MlinkDevice.Describe
import MlinkDevice.Hidden
import MlinkDevice.Correlation
import MlinkDevice.Truncation
import MlinkDevice.Registration
import MlinkDevice.Shutdown
import MlinkDevice.WorkerSleep
import MlinkDevice.Writers
import MlinkDevice.Restart
import MlinkDevice.Copying
import MlinkDevice.Bounds
import MlinkDevice.Binding
import MlinkDevice.EventGroup
import MlinkDevice.EventWaits
import MlinkDevice.QueueWaits
import MlinkDevice.QueueFifo
import MlinkDevice.Wakeups
import MlinkDevice.ScheduleRuns
import MlinkDevice.Registry
import MlinkDevice.WriteLoop
import MlinkDevice.Serving
import MlinkDevice.Defaults
import MlinkDevice.ItemLists
import MlinkDevice.Capacity
import MlinkDevice.SlotRanges
import MlinkDevice.LogRead
import MlinkDevice.PropertyItems
import MlinkDevice.Sep.Assertion
import MlinkDevice.Sep.Program
import MlinkDevice.Pointers.Property
import MlinkDevice.Pointers.Owned
import MlinkDevice.Pointers.PropertyLists
import MlinkDevice.Pointers.Tool
import MlinkDevice.Pointers.ReturnValue
import MlinkDevice.Pointers.Arguments
import MlinkDevice.Pointers.Call
import MlinkDevice.Pointers.Getters
import MlinkDevice.Pointers.Registry
import MlinkDevice.Pointers.Client
import MlinkDevice.Framing
import MlinkDevice.Json.Stream
import MlinkDevice.Outgoing
import MlinkDevice.Settings
import MlinkDevice.Device
import MlinkDevice.RemoteCall
import MlinkDevice.RemoteListing
