import HeadlessAndroid.Lib.StepSystem
import HeadlessAndroid.Logcat
import HeadlessAndroid.EmuConsole
import HeadlessAndroid.EmuWrites
import HeadlessAndroid.AdbProcess
import HeadlessAndroid.PidFiles
import HeadlessAndroid.Broadcasts
import HeadlessAndroid.Dashboard
import HeadlessAndroid.DevicePanel
import HeadlessAndroid.Routes
import HeadlessAndroid.LocationHooks
import HeadlessAndroid.PackageHooks
import HeadlessAndroid.ScopeShQuote
import HeadlessAndroid.ScopeListing
import HeadlessAndroid.Receiver
import HeadlessAndroid.LocationRequest
import HeadlessAndroid.Apk
import HeadlessAndroid.Apply
import HeadlessAndroid.BinderAccounts
import HeadlessAndroid.BinderReach
