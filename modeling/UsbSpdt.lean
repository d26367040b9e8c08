import UsbSpdt.Board.CoilSupply
import UsbSpdt.Board.Indicator
import UsbSpdt.Board.Relays
import UsbSpdt.Board.TurnOff
import UsbSpdt.Console.Input
import UsbSpdt.Console.Lossless
import UsbSpdt.Console.Ring
import UsbSpdt.Timer.Conversions
import UsbSpdt.Timer.HiresTimer
import UsbSpdt.Boot.ReadEEprom
import UsbSpdt.Eeprom.Interleaved
import UsbSpdt.Firmware.BlinkerLife
import UsbSpdt.Firmware.Checksum
import UsbSpdt.Firmware.Bounds
import UsbSpdt.Firmware.Heap
import UsbSpdt.Firmware.Leftovers
import UsbSpdt.Firmware.Startup
import UsbSpdt.Host.Encoding
import UsbSpdt.Host.Identify
import UsbSpdt.Host.Bench
import UsbSpdt.Host.PolarityBytes
import UsbSpdt.Host.SendPacket
import UsbSpdt.Host.Checksums
import UsbSpdt.Host.Echo
import UsbSpdt.Host.StringsTab
import UsbSpdt.Host.Array
import UsbSpdt.Host.Interrupted
import UsbSpdt.Host.SetupUSB
import UsbSpdt.Link.OneCommand
import UsbSpdt.Link.OwnReply
import UsbSpdt.Printf.Extent
import UsbSpdt.Printf.ReadBack
import UsbSpdt.Printf.ToConsole
import UsbSpdt.Shell.Screen
import UsbSpdt.Shell.TypedAhead
import UsbSpdt.Shell.Session
import UsbSpdt.Shell.CommandLine
import UsbSpdt.Shell.Help
import UsbSpdt.Shell.MemoryCommands
import UsbSpdt.Shell.PresentArgs
import UsbSpdt.Shell.Quoting
import UsbSpdt.Shell.Words
import UsbSpdt.Host.Panel
