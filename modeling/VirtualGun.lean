import VirtualGun.GunReport
import VirtualGun.Driver.Config
import VirtualGun.Driver.Writers
import VirtualGun.Driver.Wakeup
import VirtualGun.Driver.Completion
import VirtualGun.Driver.Mouse
import VirtualGun.Driver.RequestIds
import VirtualGun.Driver.EventEncoding
import VirtualGun.Driver.ReadBounds
import VirtualGun.Driver.ParserSafety
import VirtualGun.Driver.ParserSpec
import VirtualGun.Setup.SigningKey
import VirtualGun.Setup.FailedInstall
import VirtualGun.Setup.Signature
import VirtualGun.Setup.Pinning
import VirtualGun.Setup.ExitCode
import VirtualGun.Setup.LaneNames
import VirtualGun.Setup.Thumbprints
import VirtualGun.Setup.SetupLock
import VirtualGun.Setup.Limits
import VirtualGun.Library.ReadEvent
import VirtualGun.Tools.GunCli
import VirtualGun.Library.EventBlocks
import VirtualGun.Library.Joining
import VirtualGun.Library.Stopping
