import OlympusFirmware.Lib.Fsm
import OlympusFirmware.Lib.Mem
import OlympusFirmware.Lib.Bytes
import OlympusFirmware.Lib.Word
import OlympusFirmware.Lib.Crc
import OlympusFirmware.Lib.Ring
import OlympusFirmware.Lib.PingPong
import OlympusFirmware.Lib.Blocks
import OlympusFirmware.Lib.Handoff
import OlympusFirmware.Olympus.Crc8
import OlympusFirmware.Olympus.Comms
import OlympusFirmware.Olympus.Checksum
import OlympusFirmware.Olympus.Framing
import OlympusFirmware.Olympus.Delivery
import OlympusFirmware.Olympus.Dispatch
import OlympusFirmware.Olympus.Resync
import OlympusFirmware.Olympus.Bounds
import OlympusFirmware.Olympus.InputData
import OlympusFirmware.Olympus.UsbResponse
import OlympusFirmware.Olympus.Responses
import OlympusFirmware.Usb.DoubleBuffer
import OlympusFirmware.Usb.Reception
import OlympusFirmware.Usb.Interrupted
import OlympusFirmware.Usb.Fifo
import OlympusFirmware.Usb.Control
import OlympusFirmware.Usb.ControlRead
import OlympusFirmware.Usb.ControlWrite
import OlympusFirmware.Usb.ClassData
import OlympusFirmware.Usb.Unanswered
import OlympusFirmware.MasterBoot.Flash
import OlympusFirmware.MasterBoot.Boot
import OlympusFirmware.MasterBoot.Main
import OlympusFirmware.MasterBoot.WordAssembly
import OlympusFirmware.MasterBoot.Steps
import OlympusFirmware.MasterBoot.Submodule
import OlympusFirmware.MasterBoot.DataPhase
import OlympusFirmware.MasterBoot.Confinement
import OlympusFirmware.MasterBoot.Placement
import OlympusFirmware.MasterBoot.Recovery
import OlympusFirmware.MasterBoot.Within
import OlympusFirmware.MasterBoot.Sessions
import OlympusFirmware.SlaveLib.CommsLib
import OlympusFirmware.SlaveLib.Exchange
import OlympusFirmware.SlaveLib.SpiTransmit
import OlympusFirmware.SlaveLib.SpiReceive
import OlympusFirmware.SlaveLib.Capture
import OlympusFirmware.SlaveBoot.Flash
import OlympusFirmware.SlaveBoot.Comms
import OlympusFirmware.SlaveBoot.Messages
import OlympusFirmware.SlaveBoot.Progress
import OlympusFirmware.SlaveBoot.Sessions
import OlympusFirmware.SlaveBoot.Confinement
import OlympusFirmware.UsbFlasher.Boot
import OlympusFirmware.UsbFlasher.Crc8
import OlympusFirmware.UsbFlasher.Script
import OlympusFirmware.Update.Board
import OlympusFirmware.MasterLib.SubmoduleComms
import OlympusFirmware.Update.EndToEnd
import OlympusFirmware.Update.Retry
import OlympusFirmware.Update.ResponsePhase
import OlympusFirmware.Update.Link
import OlympusFirmware.Update.Stages
import OlympusFirmware.Update.Agreement
import OlympusFirmware.Update.Fleet
import OlympusFirmware.Update.Session
import OlympusFirmware.Olympus.Submodules
import OlympusFirmware.Hermes.Throttle
import OlympusFirmware.Hermes.Comms
import OlympusFirmware.Hermes.Speed
import OlympusFirmware.Janus.Comms
import OlympusFirmware.Hephaestus.Steer
import OlympusFirmware.Hephaestus.Comms
import OlympusFirmware.Hephaestus.Control
import OlympusFirmware.Hephaestus.SteerSpeed
import OlympusFirmware.Olympus.MessageTables
import OlympusFirmware.Olympus.Console
import OlympusFirmware.Olympus.ConsoleCommands
import OlympusFirmware.Olympus.ConsoleNumbers
import OlympusFirmware.Olympus.ConsoleArguments
import OlympusFirmware.Olympus.Usart
import OlympusFirmware.Olympus.Transmit
import OlympusFirmware.Olympus.UsartRounds
import OlympusFirmware.Olympus.UsartOverrun
import OlympusFirmware.Olympus.UsartReceive
import OlympusFirmware.Olympus.Buffer8
import OlympusFirmware.Olympus.I2c
import OlympusFirmware.Olympus.I2cTransfer
import OlympusFirmware.Olympus.I2cTransmit
import OlympusFirmware.Olympus.I2cReceive
import OlympusFirmware.Olympus.I2cQueue
import OlympusFirmware.Olympus.I2cOrder
import OlympusFirmware.Olympus.Timer
import OlympusFirmware.Olympus.TimerSchedule
import OlympusFirmware.Olympus.TimerTicks
import OlympusFirmware.Olympus.TcpServer
import OlympusFirmware.Olympus.TcpReceive
import OlympusFirmware.Olympus.Ethernet
import OlympusFirmware.Olympus.EthernetTransmit
import OlympusFirmware.Olympus.EthernetReceive
