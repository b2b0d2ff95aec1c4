import Bolide.Rfb.PaintedTheorems
import Bolide.Rfb.EventsTheorems
import Bolide.Rfb.HandshakeTheorems
import Bolide.Rfb.Opening
import Bolide.Rfb.Connected
import Bolide.Rfb.WakeupTheorems
import Bolide.Rfb.FullRequestTheorems
import Bolide.Rfb.ContinuousTheorems
import Bolide.Rfb.ChordTheorems
import Bolide.Rfb.BlitTheorems
import Bolide.Rfb.PixelTheorems
import Bolide.Rfb.AllocationTheorems
import Bolide.Rfb.ArdTheorems
import Bolide.Testkit.Ard
import Bolide.Testkit.ServerTheorems
import Bolide.Testkit.HandshakeTheorems
import Bolide.Testkit.WaitForTheorems
import Bolide.Testkit.VisitsTheorems
import Bolide.Testkit.FramesTheorems
import Bolide.Testkit.ConveyedTheorems
import Bolide.Testkit.CpixelTheorems
import Bolide.Server.FreshFrameTheorems
import Bolide.Server.BraidTheorems
import Bolide.Server.DragTheorems
import Bolide.Server.TypedTheorems
import Bolide.Server.ScreenTheorems
import Bolide.Server.HandsTheorems
import Bolide.Server.SettleTheorems
import Bolide.Server.ToldTheorems
import Bolide.Cli.DaemonTheorems
import Bolide.Cli.StateTheorems
import Bolide.Cli.NewerTheorems
import Bolide.Cli.Rfc3339
import Bolide.Cli.CommandLineTheorems
import Bolide.Cli.TargetTheorems
import Bolide.Cli.RedactTheorems
import Bolide.Cli.RecordTheorems
import Bolide.Cli.ActTheorems
